import Xnd.Restart.Membership
import Xnd.Restart.Frames
import Xnd.Builds.System
import Xnd.Thread.CallSequence
import Xnd.Thread.Nesting
import Xnd.Coord.WaitForMsg
import Xnd.Coord.Translation
import Xnd.Coord.Capacity
import Xnd.Coord.Oob
import Xnd.Coord.Roots
import Xnd.Coord.Exchange
import Xnd.Coord.Launches
import Xnd.Coord.Suspended
import Xnd.Coord.Epochs
import Xnd.Coord.Removal
import Xnd.Coord.ListHistory
import Xnd.Suspend.Locks
import Xnd.Suspend.Barrier
import Xnd.Suspend.Signals
import Xnd.Suspend.Lists
import Xnd.Joint.Cut
import Xnd.Resume.Rest
import Xnd.Resume.Flag
import Xnd.Image.Partial
import Xnd.Image.Choice
import Xnd.Image.Print
import Xnd.Image.Protection
import Xnd.Image.MarkRegions
import Xnd.Image.Checkpoint
import Xnd.Image.Recovery
import Xnd.Ckptdir.Copies
import Xnd.Ckptdir.Manifest
import Xnd.Ckptdir.Decompress
import Xnd.Ckptdir.Path
import Xnd.Ckptdir.Names
import Xnd.Macho.Commands
import Xnd.Macho.Fixups
import Xnd.Macho.Segcreate
import Xnd.Macho.Thin
import Xnd.Files.Fresh
import Xnd.Files.Refs
import Xnd.Files.Flags
import Xnd.Files.Races
import Xnd.Pid.Forks
import Xnd.Pid.LockOrder
import Xnd.Pid.Transparent
import Xnd.Pid.Targets
import Xnd.Pid.Postrestart
import Xnd.Time.Sleep
import Xnd.Util.Leb128
import Xnd.Util.Io
