import IdlLinker.Proofs.Construction.Undisturbed

/-!
# Calls in a run

A call looks for what stands in a declaration, while its caller has a node open and further callers
have theirs. The site that is left to the call is in the midst of a construction, and there is no
name for it in the functions of which a construction is made. But a run can be told to halt where it
looks for a declaration at a certain site. If it ends otherwise than the run that is told nothing,
it has come there (`ComesTo`).

That the parents are known at all sites to which a run comes is shown with two resolvers of which
one may halt. They do the same wherever parents are known. So a run that may halt only at a site
where they are not is the same as the run that is told nothing, and does not come there.
-/

namespace IdlLinker.Construction

open IdlLinker.Graph IdlLinker.Link

variable {g : Graph} {s : Scope} {σ σ' : Site} {r r' : Resolver} {top : TopLevel}
  {stop : Site → Bool} {halt : Halt}

/-! ## Calls -/

/-- A way in which a construction looks for what stands in a declaration. -/
inductive Call (g : Graph) where
  | kind (t : TypeExpr)
  | value (v : ValueExpr)
  | type (key : TypeKey)
  | constant (key : ValueKey)
  /-- An enum member is asked for when the graph has one under the key. -/
  | member (key : ValueKey) (d : Graph.Enumerator)
    (found : g.values.find? key = some (.enumerator d))
  | contained (d : Info)

namespace Call

/-- What is found. -/
abbrev Answer : Call g → Type
  | .kind _ => Kind
  | .value _ => Value
  | .type _ => UserType
  | .constant _ => ConstantId
  | .member _ _ _ => MemberId
  | .contained _ => List EnumId × List ConstantId

/-- Looks for it. -/
def run (r : Resolver) : (call : Call g) → Build call.Answer
  | .kind t => Construction.kind r t
  | .value v => Construction.value g r v
  | .type key => r.type key
  | .constant key => r.constant key
  | .member key d _ => r.member key d
  | .contained d => Construction.contained r d

theorem growth (hr : r.Grows g s r') (call : Call g) {a : call.Answer}
    (ran : call.run r σ = .ok (a, σ')) : Growth g s σ σ' := by
  cases call with
  | kind t => exact ((Answers.kind hr t).answered ran).growth
  | value v => exact ((Answers.value hr v).answered ran).growth
  | type key => exact (hr.type ran).1
  | constant key => exact (hr.constant ran).1
  | member key d found => exact (hr.member found ran).1
  | contained d => exact ((Answers.contained hr d).answered ran).growth

end Call

/-! ## Where a run comes -/

/-- What finds declarations, but halts at the sites where it is told to stop. -/
def Resolver.guard (stop : Site → Bool) (halt : Halt) (r : Resolver) : Resolver where
  type key σ := if stop σ then .error halt else r.type key σ
  constant key σ := if stop σ then .error halt else r.constant key σ
  member key d σ := if stop σ then .error halt else r.member key d σ

/-- Finds declarations, and halts on every level at the sites where it is told to stop. -/
def guarded (g : Graph) (s : Scope) (stop : Site → Bool) (halt : Halt) : Nat → Resolver
  | 0 => (resolver g s 0).guard stop halt
  | n + 1 =>
    let r := guarded g s stop halt n
    Resolver.guard stop halt ⟨type g s r, constant g s r, member s r⟩

/-- The run for top-level declarations comes to a site at which it looks for a declaration: it makes
a difference to halt there. -/
def ComesTo (g : Graph) (s : Scope) (top : TopLevel) (σ : Site) : Prop :=
  ∃ stop halt, (∀ τ, stop τ = true → τ = σ) ∧
    topLevel s (guarded g s stop halt (levels g)) top {} ≠
      topLevel s (resolver g s (levels g)) top {}

theorem Resolver.Grows.guard (hr : r.Grows g s r')
    (never : ∀ {τ : Site}, τ.ParentsKnown → stop τ = false) :
    r.Grows g s (r'.guard stop halt) where
  type := hr.type
  constant := hr.constant
  member := hr.member
  sameType known := (if_neg (ne_true_of_eq_false (never known))).trans (hr.sameType known)
  sameConstant known := (if_neg (ne_true_of_eq_false (never known))).trans (hr.sameConstant known)
  sameMember found known :=
    (if_neg (ne_true_of_eq_false (never known))).trans (hr.sameMember found known)

/-- Whoever halts only where parents are not known is not told from whoever does not halt. -/
theorem grows_guarded (never : ∀ {τ : Site}, τ.ParentsKnown → stop τ = false) (n : Nat) :
    (resolver g s n).Grows g s (guarded g s stop halt n) := by
  induction n with
  | zero => exact (grows_resolver g s 0).guard never
  | succ n ih => exact (grows_succ ih).guard never

theorem exists_answers_topLevel (hr : r.Grows g s r') (top : TopLevel) :
    ∃ rs post, Answers g s (topLevel s r top) (topLevel s r' top) rs post :=
  ⟨_, _, (Answers.mapM_each (Answers.constant hr) top.constants).bind fun _ ↦
    (Answers.mapM_each (Answers.typed hr .interface) top.interfaces).bind fun _ ↦
    (Answers.mapM_each (Answers.typed hr .struct) top.structs).bind fun _ ↦
    (Answers.mapM_each (Answers.typed hr .union) top.unions).bind fun _ ↦
    (Answers.mapM_each (Answers.typed hr .enum) top.enums).give _⟩

theorem ComesTo.parentsKnown (h : ComesTo g s top σ) : σ.ParentsKnown := by
  obtain ⟨stop, halt, only, differs⟩ := h
  -- If they were not known there, there would be no halt where they are known.
  by_contra unknown
  have never : ∀ {τ : Site}, τ.ParentsKnown → stop τ = false := fun {τ} known ↦ by
    cases stops : stop τ with
    | false => rfl
    | true => exact absurd (only τ stops ▸ known) unknown
  have grows : (resolver g s (levels g)).Grows g s (guarded g s stop halt (levels g)) :=
    grows_guarded never (levels g)
  obtain ⟨rs, post, answers⟩ := exists_answers_topLevel grows top
  exact differs (answers.same parentsKnown_empty)

/-- **A call disturbs nothing.** If a call succeeds the site has grown: what is remembered stays
remembered, every arena keeps its nodes as they are, positions and contents, whether they are
complete or open; and each key that is new stands for a complete node, what it names being
remembered. The sites to which a run comes are among those from which this is so. From there the
parents, too, are remembered in the end, those of the enum members included. -/
theorem growth_and_parentsKnown (s : Scope) (n : Nat) (call : Call g) {a : call.Answer}
    (ran : call.run (resolver g s n) σ = .ok (a, σ')) :
    Growth g s σ σ' ∧ ∀ top, ComesTo g s top σ → σ'.ParentsKnown :=
  have growth := call.growth (grows_resolver g s n) ran
  ⟨growth, fun _ comes ↦ growth.parentsKnown comes.parentsKnown⟩

/-- The struct of the knot is open, and has its header. -/
def knotOpened : Site :=
  (({} : Site).addType "a.S" .struct).put .structs 0 ⟨"S", "S", .here, .empty, [], [], []⟩

/-- A field of the struct has an enum member as its default. -/
def knotCall : Call Graph.knot := .value (.reference { key := "a.S.E.A" })

theorem bind_eq_error {α β : Type} {c : Build α} {k : α → Build β} (h : c σ = .error halt) :
    (c >>= k) σ = .error halt := by
  rw [bind_apply, h]
  rfl

/-- The first thing that is looked for in the struct is the type of a field. -/
theorem type_knot_eq_error (ends : r.type "a.S" knotOpened = .error halt) :
    type Graph.knot ⟨"a", {}⟩ r "a.S" {} = .error halt := by
  obtain ⟨d, f, fs, -, fields, reference, default, opened⟩ : ∃ d f fs,
      Graph.knot.types.find? "a.S" = some (.struct d) ∧ d.fields = f :: fs ∧
        f.type = .reference { nullable := true, key := "a.S" } ∧ f.default? = none ∧
          type Graph.knot ⟨"a", {}⟩ r "a.S" {} =
            (members Graph.knot r 0 (.struct d) >>= fun _ ↦ pure (.struct ⟨0⟩)) knotOpened :=
    ⟨_, _, _, rfl, rfl, rfl, rfl, rfl⟩
  have field : structField Graph.knot r f knotOpened = .error halt := by
    rw [structField, reference, default]
    simp only [fieldDefault, pure_bind]
    exact bind_eq_error (bind_eq_error ends)
  rw [opened, members, fields, List.mapM_cons]
  exact bind_eq_error (bind_eq_error (bind_eq_error field))

/-- The run comes to the open struct when it looks for the type of the first field. -/
theorem comesTo_knotOpened : ComesTo Graph.knot ⟨"a", {}⟩ { structs := ["a.S"] } knotOpened := by
  classical
  refine ⟨fun τ ↦ decide (τ = knotOpened), .tooDeep, fun τ ↦ of_decide_eq_true, fun same ↦ ?_⟩
  have start : ({} : Site) ≠ knotOpened := fun same ↦
    nomatch congrArg (·.typeIds.find? "a.S") same
  have halts : ∀ n, (guarded Graph.knot ⟨"a", {}⟩ (fun τ ↦ decide (τ = knotOpened)) .tooDeep n).type
      "a.S" knotOpened = .error .tooDeep := fun n ↦ by
    cases n <;> exact if_pos (decide_eq_true rfl)
  have first : (guarded Graph.knot ⟨"a", {}⟩ (fun τ ↦ decide (τ = knotOpened)) .tooDeep
      (levels Graph.knot)).type "a.S" {} = .error .tooDeep :=
    (if_neg (by simpa using start)).trans (type_knot_eq_error (halts _))
  have succeeds : (topLevel ⟨"a", {}⟩ (resolver Graph.knot ⟨"a", {}⟩ (levels Graph.knot))
      { structs := ["a.S"] } {}).toOption.isSome = true := by decide +kernel
  rw [← same] at succeeds
  simp only [topLevel, List.mapM_nil, pure_bind, List.mapM_cons, typed, bind_assoc] at succeeds
  rw [bind_eq_error first] at succeeds
  cases succeeds

/-- A default leads from the open struct to the enum member, to its enum, and from there back to the
struct, whose node is as it was left. -/
theorem growth_knotOpened :
    ComesTo Graph.knot ⟨"a", {}⟩ { structs := ["a.S"] } knotOpened ∧
      ∃ a σ', knotCall.run (resolver Graph.knot ⟨"a", {}⟩ 4) knotOpened = .ok (a, σ') ∧
        Growth Graph.knot ⟨"a", {}⟩ knotOpened σ' ∧ σ'.ParentsKnown := by
  refine ⟨comesTo_knotOpened, ?_⟩
  have succeeds :
      (knotCall.run (resolver Graph.knot ⟨"a", {}⟩ 4) knotOpened).toOption.isSome = true := by
    decide +kernel
  cases ran : knotCall.run (resolver Graph.knot ⟨"a", {}⟩ 4) knotOpened with
  | error halt =>
    rw [ran] at succeeds
    cases succeeds
  | ok p =>
    obtain ⟨growth, parents⟩ := growth_and_parentsKnown ⟨"a", {}⟩ 4 knotCall ran
    exact ⟨p.1, p.2, rfl, growth, parents _ comesTo_knotOpened⟩

end IdlLinker.Construction
