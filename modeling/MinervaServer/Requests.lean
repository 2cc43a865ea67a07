/-
# From a request to a command

`src/commands.rs`: `Command::group_id` and `Command::from_proto`, which checks a
`SendCommandRequest` at the service boundary.  Each of the five shapes has its own required fields
and its own order of checks, and the first one that fails gives the status.

What the checks are for is said without them: a request is WELL FORMED if the fields that its shape
requires are there, and `toProto` writes a command as the request that asks for it.  `from_proto`
accepts exactly the well-formed requests, and gives the command that is written as the request
(`fromProto_eq_ok`); so nothing that a request says is lost.  Of another request it says what is
missing (`fromProto_eq_error`).
-/
import MinervaServer.Dispatcher
import MinervaServer.Forwarder

namespace MinervaServer

variable {Fl : Floats}

/-! ## 1. The checks -/

/-- `Status::invalid_argument`. -/
def Status.invalidArgument (message : String) : Status := ⟨.invalidArgument, message⟩

namespace Command

/-- The group that must be dispatched to, and that is looked up in the cache before that; for
`support` the supporting group, which receives the order. -/
def groupId : Command Fl → GroupId
  | move groupId _ | searchAndDestroy groupId _ | defendZone groupId _ _ | patrol groupId _ _ =>
    groupId
  | support supporterGroupId _ _ => supporterGroupId

def requirePosition (position : Option (Proto.CommandTarget Fl)) :
    Except Status (Proto.CommandTarget Fl) :=
  match position with
  | some position => .ok position
  | none => .error (.invalidArgument "position is required")

def requireGroupId (groupId : String) : Except Status GroupId :=
  if groupId = "" then .error (.invalidArgument "group_id is required") else .ok (.ofStr groupId)

/-- `Command::from_proto`. -/
def fromProto (request : Proto.SendCommandRequest Fl) : Except Status (Command Fl) :=
  match request.command with
  | none => .error (.invalidArgument "command is required")
  | some (.move c) => do
    let groupId ← requireGroupId c.groupId
    let position ← requirePosition c.position
    return .move groupId position
  | some (.searchAndDestroy c) => do
    let groupId ← requireGroupId c.groupId
    let position ← requirePosition c.position
    return .searchAndDestroy groupId position
  | some (.defendZone c) => do
    if c.zoneId = "" then
      throw (.invalidArgument "zone_id is required")
    let groupId ← requireGroupId c.groupId
    return .defendZone groupId c.zoneId c.position
  | some (.patrol c) => do
    if c.waypoints = [] then
      throw (.invalidArgument "waypoints must not be empty")
    let groupId ← requireGroupId c.groupId
    return .patrol groupId c.waypoints c.loop
  | some (.support c) => do
    if c.supportedGroupId = "" then
      throw (.invalidArgument "supported_group_id is required")
    if c.supportType = "" then
      throw (.invalidArgument "support_type is required")
    let supporterGroupId ← requireGroupId c.supporterGroupId
    return .support supporterGroupId (.ofStr c.supportedGroupId) c.supportType

/-! ## 2. What they are for -/

/-- The command as the request that asks for it, field by field. -/
def toProto : Command Fl → Proto.SendCommandRequest Fl
  | move groupId position => ⟨some (.move ⟨some position, groupId.str⟩)⟩
  | searchAndDestroy groupId position => ⟨some (.searchAndDestroy ⟨some position, groupId.str⟩)⟩
  | defendZone groupId zoneId position => ⟨some (.defendZone ⟨groupId.str, zoneId, position⟩)⟩
  | patrol groupId waypoints loop => ⟨some (.patrol ⟨groupId.str, waypoints, loop⟩)⟩
  | support supporterGroupId supportedGroupId supportType =>
    ⟨some (.support ⟨supporterGroupId.str, supportedGroupId.str, supportType⟩)⟩

end Command

namespace Proto.SendCommandRequest

/-- The fields that its shape requires are there. -/
def WellFormed (request : SendCommandRequest Fl) : Prop :=
  match request.command with
  | none => False
  | some (.move c) => c.groupId ≠ "" ∧ c.position.isSome
  | some (.searchAndDestroy c) => c.groupId ≠ "" ∧ c.position.isSome
  | some (.defendZone c) => c.groupId ≠ "" ∧ c.zoneId ≠ ""
  | some (.patrol c) => c.groupId ≠ "" ∧ c.waypoints ≠ []
  | some (.support c) =>
    c.supporterGroupId ≠ "" ∧ c.supportedGroupId ≠ "" ∧ c.supportType ≠ ""

/-- The group that a request is for: the supporter, for `support`. -/
def receiver (request : SendCommandRequest Fl) : Option GroupId :=
  request.command.map fun
    | .move c => .ofStr c.groupId
    | .searchAndDestroy c => .ofStr c.groupId
    | .defendZone c => .ofStr c.groupId
    | .patrol c => .ofStr c.groupId
    | .support c => .ofStr c.supporterGroupId

/-- The complaints about a request, in the order of the checks. -/
def complaints (request : SendCommandRequest Fl) : List String :=
  let require (present : Bool) (message : String) : List String := if present then [] else [message]
  match request.command with
  | none => ["command is required"]
  | some (.move c) =>
    require (c.groupId ≠ "") "group_id is required" ++
      require c.position.isSome "position is required"
  | some (.searchAndDestroy c) =>
    require (c.groupId ≠ "") "group_id is required" ++
      require c.position.isSome "position is required"
  | some (.defendZone c) =>
    require (c.zoneId ≠ "") "zone_id is required" ++
      require (c.groupId ≠ "") "group_id is required"
  | some (.patrol c) =>
    require (c.waypoints ≠ []) "waypoints must not be empty" ++
      require (c.groupId ≠ "") "group_id is required"
  | some (.support c) =>
    require (c.supportedGroupId ≠ "") "supported_group_id is required" ++
      require (c.supportType ≠ "") "support_type is required" ++
      require (c.supporterGroupId ≠ "") "group_id is required"

end Proto.SendCommandRequest

namespace Command

/-! ## 3. The checks do what they are for -/

theorem receiver_toProto (command : Command Fl) :
    command.toProto.receiver = some command.groupId := by
  cases command <;> rfl

theorem requireGroupId_eq_ok {id : String} {groupId : GroupId} :
    requireGroupId id = .ok groupId ↔ groupId.str = id ∧ id ≠ "" := by
  unfold requireGroupId
  split
  · simp_all
  · next hid =>
    rw [Except.ok.injEq]
    constructor
    · rintro rfl
      exact ⟨rfl, hid⟩
    · rintro ⟨rfl, -⟩
      rfl

theorem requirePosition_eq_ok {position : Option (Proto.CommandTarget Fl)}
    {target : Proto.CommandTarget Fl} :
    requirePosition position = .ok target ↔ position = some target := by
  cases position <;> simp [requirePosition]

theorem except_bind_eq_ok {E A B : Type} {x : Except E A} {f : A → Except E B} {b : B} :
    x >>= f = .ok b ↔ ∃ a, x = .ok a ∧ f a = .ok b := by
  cases x with
  | error e => simp [bind, Except.bind]
  | ok a => simp [bind, Except.bind]

/-- What a command is written as gives the command. -/
theorem fromProto_toProto {command : Command Fl} (h : command.toProto.WellFormed) :
    fromProto command.toProto = .ok command := by
  have hgroup : ∀ groupId : GroupId, groupId.str ≠ "" →
      requireGroupId groupId.str = .ok groupId := fun _ hne => requireGroupId_eq_ok.mpr ⟨rfl, hne⟩
  cases command with
  | move groupId position | searchAndDestroy groupId position =>
    simp only [toProto, fromProto, hgroup groupId h.1]
    rfl
  | defendZone groupId zoneId position =>
    simp only [toProto, fromProto, hgroup groupId h.1, if_neg h.2]
    rfl
  | patrol groupId waypoints loop =>
    simp only [toProto, fromProto, hgroup groupId h.1, if_neg h.2]
    rfl
  | support supporterGroupId supportedGroupId supportType =>
    simp only [toProto, fromProto, hgroup supporterGroupId h.1, if_neg h.2.1, if_neg h.2.2]
    rfl

/-- A check in front of the rest. -/
theorem check_eq_ok {p : Prop} [Decidable p] {message : String} {A : Type}
    {rest : Except Status A} {a : A} :
    (do if p then throw (.invalidArgument message)
        rest) = Except.ok a ↔ ¬ p ∧ rest = .ok a := by
  by_cases hp : p <;> simp [hp, bind, Except.bind, throw, throwThe, MonadExceptOf.throw]

/-- **What is accepted.**  A request gives a command exactly if it is well formed, and the command
is the one that is written as this request. -/
theorem fromProto_eq_ok {request : Proto.SendCommandRequest Fl} {command : Command Fl} :
    fromProto request = .ok command ↔ command.toProto = request ∧ request.WellFormed := by
  constructor
  · intro h
    obtain ⟨_ | c⟩ := request
    · cases h
    · cases c with
      | move c | searchAndDestroy c =>
        obtain ⟨groupId, hgroup, h⟩ := except_bind_eq_ok.mp h
        obtain ⟨position, hposition, h⟩ := except_bind_eq_ok.mp h
        obtain ⟨target, id⟩ := c
        obtain ⟨rfl, hne⟩ := requireGroupId_eq_ok.mp hgroup
        obtain rfl := requirePosition_eq_ok.mp hposition
        obtain rfl := Except.ok.inj h
        exact ⟨rfl, hne, rfl⟩
      | defendZone c =>
        obtain ⟨hzone, h⟩ := check_eq_ok.mp h
        obtain ⟨groupId, hgroup, h⟩ := except_bind_eq_ok.mp h
        obtain ⟨id, zoneId, position⟩ := c
        obtain ⟨rfl, hne⟩ := requireGroupId_eq_ok.mp hgroup
        obtain rfl := Except.ok.inj h
        exact ⟨rfl, hne, hzone⟩
      | patrol c =>
        obtain ⟨hwaypoints, h⟩ := check_eq_ok.mp h
        obtain ⟨groupId, hgroup, h⟩ := except_bind_eq_ok.mp h
        obtain ⟨id, waypoints, loop⟩ := c
        obtain ⟨rfl, hne⟩ := requireGroupId_eq_ok.mp hgroup
        obtain rfl := Except.ok.inj h
        exact ⟨rfl, hne, hwaypoints⟩
      | support c =>
        obtain ⟨hsupported, h⟩ := check_eq_ok.mp h
        obtain ⟨htype, h⟩ := check_eq_ok.mp h
        obtain ⟨groupId, hgroup, h⟩ := except_bind_eq_ok.mp h
        obtain ⟨id, supported, supportType⟩ := c
        obtain ⟨rfl, hne⟩ := requireGroupId_eq_ok.mp hgroup
        obtain rfl := Except.ok.inj h
        exact ⟨rfl, hne, hsupported, htype⟩
  · rintro ⟨rfl, hwell⟩
    exact fromProto_toProto hwell

/-- **What is said of another request.**  The first complaint about it, as an invalid argument. -/
theorem fromProto_eq_error {request : Proto.SendCommandRequest Fl} {status : Status} :
    fromProto request = .error status ↔
      request.complaints.head?.map Status.invalidArgument = some status := by
  obtain ⟨_ | c⟩ := request
  · simp [fromProto, Proto.SendCommandRequest.complaints]
  · cases c with
    | move c | searchAndDestroy c =>
      obtain ⟨target, id⟩ := c
      by_cases hid : id = "" <;> cases target <;>
        simp [fromProto, Proto.SendCommandRequest.complaints, requireGroupId, requirePosition, hid,
          bind, Except.bind, pure, Except.pure]
    | defendZone c =>
      obtain ⟨id, zoneId, position⟩ := c
      by_cases hzone : zoneId = "" <;> by_cases hid : id = "" <;>
        simp [fromProto, Proto.SendCommandRequest.complaints, requireGroupId, hzone, hid,
          bind, Except.bind, pure, Except.pure, throw, throwThe, MonadExceptOf.throw]
    | patrol c =>
      obtain ⟨id, waypoints, loop⟩ := c
      by_cases hwaypoints : waypoints = [] <;> by_cases hid : id = "" <;>
        simp [fromProto, Proto.SendCommandRequest.complaints, requireGroupId, hwaypoints, hid,
          bind, Except.bind, pure, Except.pure, throw, throwThe, MonadExceptOf.throw]
    | support c =>
      obtain ⟨id, supported, supportType⟩ := c
      by_cases hsupported : supported = "" <;> by_cases htype : supportType = "" <;>
        by_cases hid : id = "" <;>
        simp [fromProto, Proto.SendCommandRequest.complaints, requireGroupId, hsupported, htype,
          hid, bind, Except.bind, pure, Except.pure, throw, throwThe, MonadExceptOf.throw]

/-- **A request is accepted exactly if it is well formed.** -/
theorem fromProto_isOk {request : Proto.SendCommandRequest Fl} :
    (∃ command, fromProto request = .ok command) ↔ request.WellFormed := by
  constructor
  · rintro ⟨command, h⟩
    exact (fromProto_eq_ok.mp h).2
  · intro h
    -- the command that is written as it
    have hwritten : ∃ command : Command Fl, command.toProto = request := by
      obtain ⟨_ | c⟩ := request
      · exact h.elim
      · cases c with
        | move c =>
          obtain ⟨position, hposition⟩ := Option.isSome_iff_exists.mp h.2
          exact ⟨.move (.ofStr c.groupId) position, by rw [toProto, ← hposition]⟩
        | searchAndDestroy c =>
          obtain ⟨position, hposition⟩ := Option.isSome_iff_exists.mp h.2
          exact ⟨.searchAndDestroy (.ofStr c.groupId) position, by rw [toProto, ← hposition]⟩
        | defendZone c => exact ⟨.defendZone (.ofStr c.groupId) c.zoneId c.position, rfl⟩
        | patrol c => exact ⟨.patrol (.ofStr c.groupId) c.waypoints c.loop, rfl⟩
        | support c =>
          exact ⟨.support (.ofStr c.supporterGroupId) (.ofStr c.supportedGroupId) c.supportType,
            rfl⟩
    obtain ⟨command, rfl⟩ := hwritten
    exact ⟨command, fromProto_toProto h⟩

end Command

end MinervaServer
