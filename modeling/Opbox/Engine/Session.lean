import Opbox.Engine.EnginePhase
import Opbox.Foundation.Machine

/-!
# The engine and the semantic actor together

A session of a running daemon: the engine, the lane of the semantic actor, the replies and events
that the actor has sent and the engine has not received, and the requests at the filesystem.  What
the engine does next is open: replies are received in any order, the filesystem answers in any order
and with any result, scans are requested at any time, and the parts of the engine that look after the
outbox and the shared log put their requests in the actor's mailbox at any time.
-/

namespace Opbox

variable {D : Type}

/-- Why a session has come to a stop that it must not come to. -/
inductive SessionAbort where
  /-- The engine bailed out. -/
  | engine (bail : EngineBail)
  /-- The semantic actor panicked. -/
  | semantic (panic : RuntimePanic)
  deriving DecidableEq, Repr

/-- A session. -/
structure Session (D : Type) where
  /-- The engine. -/
  engine : Engine D
  /-- The semantic actor. -/
  lane : SemanticLane D
  /-- The replies that were sent and not received. -/
  replies : List (SemanticResponse D)
  /-- The events that were emitted and not received. -/
  events : List SemanticEvent

/-- What happens next in a session. -/
inductive SessionAction (D : Type) where
  /-- The actor takes the next request. -/
  | startRequest
  /-- The running transaction commits. -/
  | commit (now : Timestamp) (objectId : ObjectId) (claimId : NamespaceClaimId)
  /-- The actor finishes the request that ran. -/
  | finish
  /-- The engine receives a reply. -/
  | reply (n : Nat)
  /-- The engine receives an event. -/
  | event
  /-- The filesystem answers a request. -/
  | fs (n : Nat) (response : FsClientResponse)
  /-- The scan timer fires or a scan command comes in. -/
  | scan (scope : ScanScope)
  /-- The engine sends a request that has nothing to do with epochs. -/
  | call (call : ServiceCall D)

namespace Session

/-- The engine has run a branch of its loop and comes to the top again. -/
def resume (s : Session D) (e : Except EngineBail (Engine D)) :
    Except SessionAbort (Session D) :=
  match e.bind Engine.drive with
  | .ok e => .ok { s with engine := e }
  | .error bail => .error (.engine bail)

theorem resume_eq_ok {s s' : Session D} {e : Except EngineBail (Engine D)} (h : s.resume e = .ok s') :
    ∃ e₀ e', e = .ok e₀ ∧ e₀.drive = .ok e' ∧ s' = { s with engine := e' } := by
  unfold resume at h
  split at h
  next e' hdrive =>
    cases h
    cases e with
    | ok e₀ => exact ⟨e₀, e', rfl, hdrive, rfl⟩
    | error bail => cases hdrive
  · cases h

/-- The engine when it enters its loop: it has read the stable namespace and asked for a full scan. -/
def start (db : Db D) : Except SessionAbort (Session D) :=
  resume ⟨.new, .new db.clearStartupScratchTables, [], []⟩ (.ok (Engine.new.requestScan .full))

/-- The actor takes the next request from its mailbox. -/
def startRequest (s : Session D) (message : SemanticMessage D) (rest : List (SemanticMessage D)) :
    Except SessionAbort (Session D) :=
  match s.lane.startRequest message with
  | .ok lane => .ok { s with engine := { s.engine with mailbox := rest }, lane := lane }
  | .error panic => .error (.semantic panic)

/-- The actor finishes what ran. -/
def finish (s : Session D) (result : SemanticTaskResult D) : Except SessionAbort (Session D) :=
  match { s.lane with running := none }.finishTaskResult result with
  | .ok finished =>
    .ok ⟨s.engine, finished.lane, s.replies ++ finished.replies, s.events ++ finished.events⟩
  | .error panic => .error (.semantic panic)

section Step

variable [TextCrdt D] [CharDiff] [Xxh3] [DecidableEq D]

/-- One step of a session that has not come to a stop. -/
def step (s : Session D) : SessionAction D → Option (Except SessionAbort (Session D))
  | .startRequest =>
    match s.lane.running, s.engine.mailbox with
    | none, message :: rest => some (s.startRequest message rest)
    | _, _ => none
  | .commit now objectId claimId =>
    match s.lane.running with
    | some (.started task) => (attempt (task.run now objectId claimId) s.lane.db).map fun r =>
      .ok { s with lane := { s.lane with db := r.2, running := some (.committed r.1) } }
    | _ => none
  | .finish =>
    match s.lane.running with
    | some (.committed result) => some (s.finish result)
    | _ => none
  | .reply n => s.replies[n]?.map fun response =>
    { s with replies := s.replies.eraseIdx n }.resume (s.engine.handleSemanticResponse response)
  | .event =>
    match s.events with
    | event :: rest =>
      some ({ s with events := rest }.resume (.ok (s.engine.handleSemanticEvent event)))
    | [] => none
  | .fs n response => s.engine.fsClient.pending[n]?.bind fun call =>
    if call.answeredBy response then some (s.resume (s.engine.takeFsResponse n call response))
    else none
  | .scan scope => some (s.resume (.ok (s.engine.requestScan scope)))
  | .call call => some (s.resume (.ok (s.engine.send (.service call))))

end Step

end Session

/-- The runs of a session of a daemon in sync mode.  A run that comes to a stop ends. -/
def sessionMachine [TextCrdt D] [CharDiff] [Xxh3] [DecidableEq D] :
    Machine (Except SessionAbort (Session D)) (SessionAction D) where
  initial s := ∃ db : Db D, s = Session.start db
  step
    | .ok s, a => s.step a
    | .error _, _ => none

end Opbox
