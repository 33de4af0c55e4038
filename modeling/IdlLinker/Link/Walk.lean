import IdlLinker.Link.Imports
import IdlLinker.Link.Requirement
import IdlLinker.Log.Event

/-!
# Walking the graph

Linking a file begins with a walk from its top-level declarations along everything they require,
depth first. A declaration is *visited* when it is first reached, before its own requirements are
looked at; so a requirement that leads back to it is met, and cycles end. The order of visits is the
order of the declarations in the module.

## The tasks

What is still to do stands on a list of tasks. A visit puts the requirements of the declaration in
front of the rest. Each turn either visits a declaration that was not visited before, of which the
graph has finitely many, or makes the tasks shorter: a requirement weighs more than the tasks that
it turns into.

`turn` says what one task does, and `Turn` lists the same case by case. What holds of a walk is
shown of the turns, one by one.

## Enum members

An enum member that is used as a value is nested where its enum is. An enum knows its own container
once the walk has come back from there; a member that is reached earlier, from inside the container,
is *stray*: it is not nested anywhere.
-/

namespace IdlLinker.Link

open IdlLinker.Graph Log

/-- Where a link takes place. -/
structure Scope where
  /-- The file that is linked. -/
  file : FileId
  /-- What the file is and which files its imports lead to; nothing of what it declares. -/
  module : Module

/-- How far a walk has come. -/
structure Visits where
  /-- The types visited so far, in order. -/
  types : Table TypeKey TypeDecl := .empty
  /-- The constants visited so far, in order. -/
  constants : Table ValueKey Constant := .empty
  /-- The enum members visited so far, in order. -/
  members : Table ValueKey Enumerator := .empty
  /-- The enums from which the walk has gone to their container, the last one first. -/
  unplaced : List TypeKey := []
  /-- The stray members. -/
  stray : List ValueKey := []
  /-- What happened, the last event first. -/
  events : List Event := []

/-- Why and after what a walk ended early. -/
structure Failure where
  error : LinkError
  /-- What happened, the last event first. -/
  events : List Event

/-- What is still to do. -/
inductive Task where
  | meet (r : Requirement)
  /-- A type of a certain kind is expected under a visited key. -/
  | check (key : TypeKey) (expected actual : TypeTag)
  /-- The requirements of a type are met. -/
  | typeDone (key : TypeKey) (tag : TypeTag)
  /-- The walk is back from the container of an enum. -/
  | placed
  /-- The requirements of a constant are met. -/
  | constantDone (key : ValueKey)
  /-- The enum of a member is visited. -/
  | memberDone (key : ValueKey) (enum : TypeKey)

/-! ## Events -/

/-- A visited declaration was reached again. -/
def againEvent (table key : String) : Event :=
  ⟨.trace, "idl_translate::translate", "cache hit",
    [("cache", .quoted table), ("key", .quoted key)]⟩

/-- The requirements of a type are met. -/
def typeEvent (key : TypeKey) (tag : TypeTag) : Event :=
  ⟨.trace, "idl_translate::translate::kind", "resolved",
    [("key", .quoted key), ("tag", .plain tag.name)]⟩

/-- The requirements of a declared value are met. -/
def valueEvent (message key : String) : Event :=
  ⟨.trace, "idl_translate::translate::value", message, [("key", .quoted key)]⟩

/-! ## Visits -/

namespace Visits

variable (v : Visits)

def log (e : Event) : Visits := { v with events := e :: v.events }

def visitType (key : TypeKey) (d : TypeDecl) : Visits := { v with types := v.types.insert key d }

def visitConstant (key : ValueKey) (d : Constant) : Visits :=
  { v with constants := v.constants.insert key d }

def visitMember (key : ValueKey) (d : Enumerator) : Visits :=
  { v with members := v.members.insert key d }

/-- Goes from an enum to its container. -/
def leave (enum : TypeKey) : Visits := { v with unplaced := enum :: v.unplaced }

/-- Comes back from the container of the enum that was left last. -/
def comeBack : Visits := { v with unplaced := v.unplaced.drop 1 }

/-- Places an enum member where its enum is, as far as the enum knows. -/
def placeMember (key : ValueKey) (enum : TypeKey) : Visits :=
  { v with stray := if enum ∈ v.unplaced then key :: v.stray else v.stray }

def fail {α : Type} (e : LinkError) : Except Failure α := .error ⟨e, v.events⟩

end Visits

namespace Scope

/-- Whether declarations of a file can be used: those of the file itself, and of what it imports. -/
def reaches (s : Scope) (file : FileId) : Bool :=
  file = s.file || (s.module.transitiveImports.find? file).isSome

/-- Why a declaration cannot be used, if it cannot. -/
def sourceError? (s : Scope) (name : String) : Option SourceInfo → Option LinkError
  | none => some (.missingSource name)
  | some info =>
    if s.reaches info.fileName then none else some (.notImported name info.fileName s.file)

end Scope

/-! ## One turn -/

/-- The check that follows a use of a type, if a kind is expected there. -/
def checks (key : TypeKey) (expected? : Option TypeTag) (actual : TypeTag) : List Task :=
  expected?.toList.map (.check key · actual)

/-- Meets a use of a type: what there is to do first, and how far the walk has come. -/
def meetType (g : Graph) (key : TypeKey) (expected? : Option TypeTag) (v : Visits) :
    Except LinkError (List Task × Visits) :=
  match v.types.find? key with
  | some d => .ok (checks key expected? d.tag, v.log (againEvent "type" key))
  | none =>
    match g.types.find? key with
    | none => .error (.missingType key)
    | some d =>
      .ok ((requirementsOfTypeDecl key d).map .meet ++ .typeDone key d.tag ::
        checks key expected? d.tag, v.visitType key d)

def meetConstant (key : ValueKey) (d : Constant) (v : Visits) : List Task × Visits :=
  match v.constants.find? key with
  | some _ => ([], v.log (againEvent "constant" key))
  | none =>
    ((requirementsOfConstant d).map .meet ++ [.constantDone key], v.visitConstant key d)

def meetMember (key : ValueKey) (d : Enumerator) (v : Visits) : List Task × Visits :=
  match v.members.find? key with
  | some _ => ([], v.log (againEvent "enum value" key))
  | none =>
    ((requirementsOfEnumerator d).map .meet ++ [.memberDone key d.enum], v.visitMember key d)

/-- Does one task: what there is to do first after it, and how far the walk has come then. -/
def turn (g : Graph) (s : Scope) : Task → Visits → Except LinkError (List Task × Visits)
  | .meet (.source name source?), v =>
    match s.sourceError? name source? with
    | some e => .error e
    | none => .ok ([], v)
  | .meet (.literal l), v =>
    if l.isRepresentable then .ok ([], v) else .error (.unrepresentable l)
  | .meet (.type key expected?), v => meetType g key expected? v
  | .meet (.container enum key), v => .ok ([.meet (.type key none), .placed], v.leave enum)
  | .meet (.constant key), v =>
    match g.values.find? key with
    | none => .error (.missingValue key)
    | some (.enumerator _) => .error (.valueMismatch key .constant .enumMember)
    | some (.constant d) => .ok (meetConstant key d v)
  | .meet (.value key), v =>
    match g.values.find? key with
    | none => .error (.missingValue key)
    | some (.enumerator d) => .ok (meetMember key d v)
    | some (.constant d) => .ok (meetConstant key d v)
  | .check key expected actual, v =>
    if actual = expected then .ok ([], v) else .error (.typeMismatch key expected actual)
  | .typeDone key tag, v => .ok ([], v.log (typeEvent key tag))
  | .placed, v => .ok ([], v.comeBack)
  | .constantDone key, v => .ok ([], v.log (valueEvent "constant resolved" key))
  | .memberDone key enum, v =>
    .ok ([], (v.placeMember key enum).log (valueEvent "enum value resolved" key))

/-- What a turn can do, case by case. -/
inductive Turn (g : Graph) (s : Scope) : Task → Visits → List Task → Visits → Prop where
  | source {name : String} {source? : Option SourceInfo} {v : Visits}
    (known : s.sourceError? name source? = none) :
    Turn g s (.meet (.source name source?)) v [] v
  | literal {l : Literal} {v : Visits} (fine : l.isRepresentable = true) :
    Turn g s (.meet (.literal l)) v [] v
  | typeAgain {key : TypeKey} {expected? : Option TypeTag} {d : TypeDecl} {v : Visits}
    (old : v.types.find? key = some d) :
    Turn g s (.meet (.type key expected?)) v (checks key expected? d.tag)
      (v.log (againEvent "type" key))
  | typeNew {key : TypeKey} {expected? : Option TypeTag} {d : TypeDecl} {v : Visits}
    (new : v.types.find? key = none) (found : g.types.find? key = some d) :
    Turn g s (.meet (.type key expected?)) v
      ((requirementsOfTypeDecl key d).map .meet ++ .typeDone key d.tag ::
        checks key expected? d.tag)
      (v.visitType key d)
  | container {enum key : TypeKey} {v : Visits} :
    Turn g s (.meet (.container enum key)) v [.meet (.type key none), .placed] (v.leave enum)
  | constantAgain {r : Requirement} {key : ValueKey} {d d' : Constant} {v : Visits}
    (asks : r = .constant key ∨ r = .value key) (found : g.values.find? key = some (.constant d))
    (old : v.constants.find? key = some d') :
    Turn g s (.meet r) v [] (v.log (againEvent "constant" key))
  | constantNew {r : Requirement} {key : ValueKey} {d : Constant} {v : Visits}
    (asks : r = .constant key ∨ r = .value key) (found : g.values.find? key = some (.constant d))
    (new : v.constants.find? key = none) :
    Turn g s (.meet r) v ((requirementsOfConstant d).map .meet ++ [.constantDone key])
      (v.visitConstant key d)
  | memberAgain {key : ValueKey} {d d' : Enumerator} {v : Visits}
    (found : g.values.find? key = some (.enumerator d)) (old : v.members.find? key = some d') :
    Turn g s (.meet (.value key)) v [] (v.log (againEvent "enum value" key))
  | memberNew {key : ValueKey} {d : Enumerator} {v : Visits}
    (found : g.values.find? key = some (.enumerator d)) (new : v.members.find? key = none) :
    Turn g s (.meet (.value key)) v
      ((requirementsOfEnumerator d).map .meet ++ [.memberDone key d.enum]) (v.visitMember key d)
  | check {key : TypeKey} {tag : TypeTag} {v : Visits} : Turn g s (.check key tag tag) v [] v
  | typeDone {key : TypeKey} {tag : TypeTag} {v : Visits} :
    Turn g s (.typeDone key tag) v [] (v.log (typeEvent key tag))
  | placed {v : Visits} : Turn g s .placed v [] v.comeBack
  | constantDone {key : ValueKey} {v : Visits} :
    Turn g s (.constantDone key) v [] (v.log (valueEvent "constant resolved" key))
  | memberDone {key : ValueKey} {enum : TypeKey} {v : Visits} :
    Turn g s (.memberDone key enum) v []
      ((v.placeMember key enum).log (valueEvent "enum value resolved" key))

section

variable {g : Graph} {s : Scope} {task : Task} {v v' : Visits} {front : List Task}

theorem Turn.of_meetConstant {r : Requirement} {key : ValueKey} {d : Constant}
    (asks : r = .constant key ∨ r = .value key) (found : g.values.find? key = some (.constant d))
    (h : meetConstant key d v = (front, v')) : Turn g s (.meet r) v front v' := by
  rw [meetConstant] at h
  split at h
  · rename_i d' old
    obtain ⟨rfl, rfl⟩ := Prod.mk.inj h
    exact .constantAgain asks found old
  · rename_i new
    obtain ⟨rfl, rfl⟩ := Prod.mk.inj h
    exact .constantNew asks found new

theorem Turn.of_meetMember {key : ValueKey} {d : Enumerator}
    (found : g.values.find? key = some (.enumerator d)) (h : meetMember key d v = (front, v')) :
    Turn g s (.meet (.value key)) v front v' := by
  rw [meetMember] at h
  split at h
  · rename_i d' old
    obtain ⟨rfl, rfl⟩ := Prod.mk.inj h
    exact .memberAgain found old
  · rename_i new
    obtain ⟨rfl, rfl⟩ := Prod.mk.inj h
    exact .memberNew found new

theorem Turn.of_meetType {key : TypeKey} {expected? : Option TypeTag}
    (h : meetType g key expected? v = .ok (front, v')) :
    Turn g s (.meet (.type key expected?)) v front v' := by
  rw [meetType] at h
  split at h
  · rename_i d old
    cases h
    exact .typeAgain old
  · rename_i new
    split at h
    · cases h
    · rename_i d found
      cases h
      exact .typeNew new found

/-- A turn that does not fail does one of the things listed. -/
theorem Turn.of_turn (h : turn g s task v = .ok (front, v')) : Turn g s task v front v' := by
  cases task with
  | meet r =>
    cases r with
    | source name source? =>
      rw [turn] at h
      split at h
      · cases h
      · cases h
        exact .source ‹_›
    | literal l =>
      rw [turn] at h
      split at h
      · cases h
        exact .literal ‹_›
      · cases h
    | type key expected? => exact .of_meetType h
    | container enum key =>
      cases h
      exact .container
    | constant key =>
      rw [turn] at h
      split at h
      · cases h
      · cases h
      · rename_i found
        exact .of_meetConstant (Or.inl rfl) found (Except.ok.inj h)
    | value key =>
      rw [turn] at h
      split at h
      · cases h
      · rename_i found
        exact .of_meetMember found (Except.ok.inj h)
      · rename_i found
        exact .of_meetConstant (Or.inr rfl) found (Except.ok.inj h)
  | check key expected actual =>
    rw [turn] at h
    split at h
    · rename_i same
      cases h
      subst same
      exact .check
    · cases h
  | typeDone key tag =>
    cases h
    exact .typeDone
  | placed =>
    cases h
    exact .placed
  | constantDone key =>
    cases h
    exact .constantDone
  | memberDone key enum =>
    cases h
    exact .memberDone

end

/-! ## Progress

A turn visits a declaration that was not visited before, or it makes the tasks lighter. -/

/-- The weight of a task. -/
def Task.weight : Task → Nat
  | .meet (.container _ _) => 5
  | .meet _ => 3
  | _ => 1

/-- The weight of all tasks. -/
def weight : List Task → Nat
  | [] => 0
  | task :: rest => task.weight + weight rest

theorem weight_append (front rest : List Task) :
    weight (front ++ rest) = weight front + weight rest := by
  induction front with
  | nil => rw [List.nil_append, weight, Nat.zero_add]
  | cons task front ih => rw [List.cons_append, weight, weight, ih, Nat.add_assoc]

theorem Task.weight_pos (task : Task) : 0 < task.weight := by
  cases task with
  | meet r => cases r <;> simp [weight]
  | _ => simp [weight]

theorem weight_checks_lt (key : TypeKey) (expected? : Option TypeTag) (actual : TypeTag) :
    weight (checks key expected? actual) < 3 := by
  cases expected? <;> simp [checks, weight, Task.weight]

/-- The number of declarations that were not visited. -/
def unvisited (g : Graph) (v : Visits) : Nat :=
  (unseen g.types v.types.keys).length +
    ((unseen g.values v.constants.keys).length + (unseen g.values v.members.keys).length)

theorem unseen_insert_lt {α β : Type} {t : Table String α} {seen : Table String β} {key : String}
    {a : α} {b : β} (new : seen.find? key = none) (found : t.find? key = some a) :
    (unseen t (seen.insert key b).keys).length < (unseen t seen.keys).length := by
  have fresh := Table.find?_eq_none_iff.1 new
  rw [Table.keys_insert, if_neg fresh]
  exact unseen_append_lt found fresh

section Unvisited

variable {g : Graph} {v : Visits} {key : String}

theorem unvisited_visitType_lt {d : TypeDecl} (new : v.types.find? key = none)
    (found : g.types.find? key = some d) : unvisited g (v.visitType key d) < unvisited g v :=
  Nat.add_lt_add_right (unseen_insert_lt new found) _

theorem unvisited_visitConstant_lt {d : Constant} (new : v.constants.find? key = none)
    (found : g.values.find? key = some (.constant d)) :
    unvisited g (v.visitConstant key d) < unvisited g v :=
  Nat.add_lt_add_left (Nat.add_lt_add_right (unseen_insert_lt new found) _) _

theorem unvisited_visitMember_lt {d : Enumerator} (new : v.members.find? key = none)
    (found : g.values.find? key = some (.enumerator d)) :
    unvisited g (v.visitMember key d) < unvisited g v :=
  Nat.add_lt_add_left (Nat.add_lt_add_left (unseen_insert_lt new found) _) _

end Unvisited

/-- **Progress.** -/
theorem Turn.progress {g : Graph} {s : Scope} {task : Task} {v v' : Visits} {front : List Task}
    (h : Turn g s task v front v') :
    unvisited g v' < unvisited g v ∨
      unvisited g v' = unvisited g v ∧ weight front < task.weight := by
  cases h with
  | typeAgain => exact Or.inr ⟨rfl, weight_checks_lt _ _ _⟩
  | typeNew new found => exact Or.inl (unvisited_visitType_lt new found)
  | constantNew _ found new => exact Or.inl (unvisited_visitConstant_lt new found)
  | memberNew found new => exact Or.inl (unvisited_visitMember_lt new found)
  | container => exact Or.inr ⟨rfl, by simp [weight, Task.weight]⟩
  | _ => exact Or.inr ⟨rfl, Task.weight_pos _⟩

/-! ## The walk -/

/-- Does the tasks in turn. -/
def walk (g : Graph) (s : Scope) (tasks : List Task) (v : Visits) : Except Failure Visits :=
  match tasks with
  | [] => .ok v
  | task :: rest =>
    match _done : turn g s task v with
    | .error e => v.fail e
    | .ok (front, v') => walk g s (front ++ rest) v'
termination_by (unvisited g v, weight tasks)
decreasing_by
  rw [weight_append, weight]
  rcases (Turn.of_turn _done).progress with less | ⟨same, less⟩
  · exact Prod.Lex.left _ _ less
  · rw [same]
    exact Prod.Lex.right _ (Nat.add_lt_add_right less _)

end IdlLinker.Link
