import IdlLinker.Table
import Mathlib.Data.List.Basic
import Mathlib.Data.List.Forall2
import Mathlib.Data.List.Induction
import Mathlib.Data.List.Nodup
import Mathlib.Data.List.Perm.Subperm
import Mathlib.Data.List.Permutation

/-!
# Entries, keys and positions

What `Table` promises of single operations is put together here. A key that is found has an entry at
its index, and in a table without repeated keys nothing else is there: lookup, membership and
position say the same about an entry.

Keys of a table built by storing never repeat, but a table can be any list of entries; so the
absence of repetitions is an assumption where it is needed.

The lemmas go from single operations to whole tables: an entry that is stored, the entries of a
table, tables of which one goes on where the other ends, positions, and tables that are built from
lists. At the end there are a few facts about lists that are related item by item, since the tables
of two graphs or of two modules are compared in this way.
-/

namespace IdlLinker

theorem eraseDups_append_singleton {κ : Type} [DecidableEq κ] (ks : List κ) (k : κ) :
    (ks ++ [k]).eraseDups = if k ∈ ks then ks.eraseDups else ks.eraseDups ++ [k] := by
  rw [List.eraseDups_append]
  by_cases old : k ∈ ks <;> simp [List.removeAll, List.eraseDups_cons, old]

namespace Table

variable {κ α : Type} [DecidableEq κ] {t t' : Table κ α} {k k' : κ} {a a' : α}

/-! ## Storing -/

theorem of_find?_insert (h : (t.insert k a).find? k' = some a') :
    k = k' ∧ a = a' ∨ t.find? k' = some a' := by
  rw [find?_insert] at h
  split at h
  · rename_i same
    exact Or.inl ⟨same, Option.some.inj h⟩
  · exact Or.inr h

theorem mem_entries_insert {e : κ × α} (h : e ∈ (t.insert k a).entries) :
    e = (k, a) ∨ e ∈ t.entries := by
  have stored : ∀ es : List (κ × α), e ∈ store k a es → e = (k, a) ∨ e ∈ es := by
    intro es he
    induction es with
    | nil => exact Or.inl (List.mem_singleton.mp he)
    | cons x rest ih =>
      rw [store] at he
      split at he
      · exact (List.mem_cons.mp he).imp id (List.mem_cons_of_mem _)
      · rcases List.mem_cons.mp he with rfl | he
        · exact Or.inr List.mem_cons_self
        · exact (ih he).imp id (List.mem_cons_of_mem _)
  exact stored t.entries h

theorem find?_insert_self (t : Table κ α) (k : κ) (a : α) : (t.insert k a).find? k = some a := by
  rw [find?_insert, if_pos rfl]

/-- Storing under a new key leaves the other entries alone. -/
theorem find?_insert_of_new (new : t.find? k = none) (h : t.find? k' = some a') :
    (t.insert k a).find? k' = some a' := by
  rw [find?_insert, if_neg, h]
  rintro rfl
  rw [new] at h
  cases h

/-- What is found after storing was there before, where something else is known already of what is
stored. -/
theorem or_of_find?_insert {P : Prop} (h : (t.insert k a).find? k' = some a' ∨ P)
    (stored : k = k' → a = a' → P) : t.find? k' = some a' ∨ P := by
  rcases h with h | h
  · rcases of_find?_insert h with ⟨key, value⟩ | h
    · exact Or.inr (stored key value)
    · exact Or.inl h
  · exact Or.inr h

theorem nodup_keys_insert (k : κ) (a : α) (h : t.keys.Nodup) : (t.insert k a).keys.Nodup := by
  rw [keys_insert]
  split
  · exact h
  · rename_i new
    refine List.nodup_append.mpr ⟨h, List.nodup_singleton _, fun x hx y hy ↦ ?_⟩
    rintro rfl
    rw [List.mem_singleton] at hy
    exact new (hy ▸ hx)

/-! ## Entries -/

omit [DecidableEq κ] in
theorem length_keys (t : Table κ α) : t.keys.length = t.size := List.length_map _

theorem mem_keys_iff : k ∈ t.keys ↔ ∃ a, t.find? k = some a := by
  rw [← not_iff_not, ← find?_eq_none_iff, Option.eq_none_iff_forall_ne_some, not_exists]

theorem mem_keys_of_find? (found : t.find? k = some a) : k ∈ t.keys := mem_keys_iff.mpr ⟨a, found⟩

theorem length_le_size {ks : List κ} (nodup : ks.Nodup)
    (found : ∀ k ∈ ks, ∃ a, t.find? k = some a) : ks.length ≤ t.size := by
  have listed : ks ⊆ t.keys := fun k hk ↦ mem_keys_iff.mpr (found k hk)
  calc ks.length
    _ ≤ t.keys.length := (nodup.subperm listed).length_le
    _ = t.size := t.length_keys

theorem lookup_eq_some_iff {es : List (κ × α)} (nodup : (es.map Prod.fst).Nodup) :
    lookup k es = some a ↔ (k, a) ∈ es := by
  induction es with
  | nil => simp [lookup]
  | cons e rest ih =>
    obtain ⟨l, b⟩ := e
    obtain ⟨fresh, nodup⟩ := List.nodup_cons.mp nodup
    rw [lookup, List.mem_cons, Prod.mk.injEq]
    split
    · rename_i same
      subst same
      constructor
      · intro h
        exact Or.inl ⟨rfl, (Option.some.inj h).symm⟩
      · rintro (⟨-, rfl⟩ | later)
        · rfl
        · exact absurd (List.mem_map_of_mem later) fresh
    · rename_i other
      rw [ih nodup, or_iff_right]
      rintro ⟨rfl, -⟩
      exact other rfl

theorem find?_eq_some_iff (nodup : t.keys.Nodup) : t.find? k = some a ↔ (k, a) ∈ t.entries :=
  lookup_eq_some_iff nodup

/-- Without repeated keys the order of the entries makes no difference to what is found. -/
theorem find?_eq_of_perm (nodup : t.keys.Nodup)
    (h : t.entries.Perm t'.entries) : t.find? k = t'.find? k := by
  have nodup' : t'.keys.Nodup := (h.map Prod.fst).nodup_iff.mp nodup
  ext a
  rw [find?_eq_some_iff nodup, find?_eq_some_iff nodup', h.mem_iff]

/-! ## Longer tables -/

theorem lookup_append {es es' : List (κ × α)} (h : lookup k es = some a) :
    lookup k (es ++ es') = some a := by
  induction es with
  | nil => cases h
  | cons e rest ih =>
    rw [List.cons_append, lookup]
    rw [lookup] at h
    split at h
    · rename_i same
      rw [if_pos same, h]
    · rename_i other
      rw [if_neg other, ih h]

theorem find?_of_prefix (h : t.entries <+: t'.entries) (found : t.find? k = some a) :
    t'.find? k = some a := by
  obtain ⟨more, same⟩ := h
  rw [find?, ← same]
  exact lookup_append found

theorem store_of_new {es : List (κ × α)} (new : lookup k es = none) :
    store k a es = es ++ [(k, a)] := by
  induction es with
  | nil => rfl
  | cons e rest ih =>
    rw [lookup] at new
    split at new
    · cases new
    · rename_i other
      rw [store, if_neg other, ih new, List.cons_append]

theorem entries_insert_of_new (new : t.find? k = none) :
    (t.insert k a).entries = t.entries ++ [(k, a)] :=
  store_of_new new

theorem keys_insert_of_new (new : t.find? k = none) : (t.insert k a).keys = t.keys ++ [k] := by
  rw [keys_insert, if_neg (find?_eq_none_iff.mp new)]

/-- A table that says something of each key of another still does so after both store a key. -/
theorem find?_insert_map {β : Type} {u : Table κ β} {f f' : κ → β} {k₀ : κ} {b : β}
    (h : ∀ k, u.find? k = (t.find? k).map fun _ ↦ f k) (stored : b = f' k₀)
    (kept : ∀ {k a}, t.find? k = some a → f' k = f k) (k : κ) :
    (u.insert k₀ b).find? k = ((t.insert k₀ a).find? k).map fun _ ↦ f' k := by
  rw [find?_insert, find?_insert]
  split
  · rename_i same
    rw [Option.map_some, stored, same]
  · rw [h]
    cases found : t.find? k with
    | none => rfl
    | some a => rw [Option.map_some, Option.map_some, kept found]

theorem mem_keys_insert_of_mem (h : k ∈ t.keys) : k ∈ (t.insert k' a).keys := by
  rw [keys_insert]
  split
  · exact h
  · exact List.mem_append_left _ h

/-! ## Positions -/

theorem lookup_getElem?_idxOf {es : List (κ × α)} (h : lookup k es = some a) :
    es[(es.map Prod.fst).idxOf k]? = some (k, a) := by
  induction es with
  | nil => cases h
  | cons e rest ih =>
    obtain ⟨l, b⟩ := e
    rw [lookup] at h
    split at h
    · rename_i same
      subst same
      obtain rfl := Option.some.inj h
      simp
    · rename_i other
      rw [List.map_cons, List.idxOf_cons_ne _ other, List.getElem?_cons_succ]
      exact ih h

theorem getElem?_index (h : t.find? k = some a) : t.entries[t.index k]? = some (k, a) :=
  lookup_getElem?_idxOf h

theorem values_getElem?_index (h : t.find? k = some a) : t.values[t.index k]? = some a := by
  rw [values, List.getElem?_map, getElem?_index h]
  rfl

theorem index_lt_size (h : t.find? k = some a) : t.index k < t.size := by
  obtain ⟨inside, -⟩ := List.getElem?_eq_some_iff.mp (getElem?_index h)
  exact inside

theorem index_inj (h : t.find? k = some a) (same : t.index k = t.index k') : k = k' :=
  (List.idxOf_inj (mem_keys_iff.mpr ⟨a, h⟩)).mp same

/-- Without repeated keys every position is the index of its key. -/
theorem index_of_getElem? (nodup : t.keys.Nodup) {i : Nat} (h : t.entries[i]? = some (k, a)) :
    t.index k = i ∧ t.find? k = some a := by
  have found := (find?_eq_some_iff nodup).mpr (List.mem_of_getElem? h)
  refine ⟨?_, found⟩
  have key : t.keys[i]? = some k := by rw [keys, List.getElem?_map, h]; rfl
  obtain ⟨inside, rfl⟩ := List.getElem?_eq_some_iff.mp key
  exact nodup.idxOf_getElem i inside

/-- A table without repeated keys is what it finds under them. -/
theorem ext_find? (nodup : t.keys.Nodup) (keys : t.keys = t'.keys)
    (find : ∀ k, t.find? k = t'.find? k) : t = t' := by
  have entries : t.entries = t'.entries := by
    refine List.ext_getElem? fun i ↦ ?_
    have key : (t.entries[i]?).map Prod.fst = (t'.entries[i]?).map Prod.fst := by
      rw [← List.getElem?_map, ← List.getElem?_map]
      exact congrArg (·[i]?) keys
    cases h : t.entries[i]? with
    | none =>
      rw [h, Option.map_none, eq_comm, Option.map_eq_none_iff] at key
      exact key.symm
    | some e =>
      obtain ⟨k, a⟩ := e
      rw [h, Option.map_some, eq_comm, Option.map_eq_some_iff] at key
      obtain ⟨⟨k', a'⟩, h', rfl⟩ := key
      obtain ⟨-, found⟩ := index_of_getElem? nodup h
      obtain ⟨-, found'⟩ := index_of_getElem? (keys ▸ nodup) h'
      rw [find, found'] at found
      rw [h', Option.some.inj found]
  cases t
  cases t'
  exact congrArg Table.mk entries

/-! ## Tables of lists -/

theorem ofList_append (es : List (κ × α)) (e : κ × α) :
    ofList (es ++ [e]) = (ofList es).insert e.1 e.2 := by
  rw [ofList, List.foldl_append]
  rfl

theorem store_of_not_mem {es : List (κ × α)} (new : k ∉ es.map Prod.fst) :
    store k a es = es ++ [(k, a)] := by
  induction es with
  | nil => rfl
  | cons e es ih =>
    rw [List.map_cons, List.mem_cons, not_or] at new
    rw [store, if_neg (Ne.symm new.1), ih new.2, List.cons_append]

theorem ofList_of_nodup {es : List (κ × α)} (nodup : (es.map Prod.fst).Nodup) :
    ofList es = ⟨es⟩ := by
  induction es using List.reverseRecOn with
  | nil => rfl
  | append_singleton es e ih =>
    rw [List.map_append, List.nodup_append] at nodup
    obtain ⟨nodup, -, apart⟩ := nodup
    have new : e.1 ∉ es.map Prod.fst := fun old ↦ apart e.1 old e.1 (by simp) rfl
    rw [ofList_append, ih nodup, insert, store_of_not_mem new]

theorem keys_ofList (es : List (κ × α)) : (ofList es).keys = (es.map Prod.fst).eraseDups := by
  induction es using List.reverseRecOn with
  | nil => rfl
  | append_singleton es e ih =>
    rw [ofList_append, keys_insert, ih, List.map_append, List.map_singleton,
      eraseDups_append_singleton]
    simp only [List.mem_eraseDups]

theorem nodup_keys_ofList (es : List (κ × α)) : (ofList es).keys.Nodup := by
  induction es using List.reverseRecOn with
  | nil => exact List.nodup_nil
  | append_singleton es e ih =>
    rw [ofList_append]
    exact nodup_keys_insert _ _ ih

theorem find?_ofList (es : List (κ × α)) (k : κ) :
    (ofList es).find? k = (es.filter (·.1 = k)).getLast?.map Prod.snd := by
  induction es using List.reverseRecOn with
  | nil => rfl
  | append_singleton es e ih =>
    rw [ofList_append, find?_insert, ih, List.filter_append]
    by_cases same : e.1 = k <;> simp [same]

/-- Of two lists that are stored one after the other, the second has the say. -/
theorem find?_ofList_append (es es' : List (κ × α)) (k : κ) :
    (ofList (es ++ es')).find? k = ((ofList es').find? k).or ((ofList es).find? k) := by
  rw [find?_ofList, find?_ofList, find?_ofList, List.filter_append, List.getLast?_append,
    Option.map_or]

theorem find?_ofList_of_not_mem {es : List (κ × α)} (h : ∀ e ∈ es, e.1 ≠ k) :
    (ofList es).find? k = none := by
  have nothing : es.filter (·.1 = k) = [] := List.filter_eq_nil_iff.mpr (by simpa using h)
  rw [find?_ofList, nothing, List.getLast?_nil, Option.map_none]

theorem find?_ofList_of_mem {es : List (κ × α)} (mem : (k, a) ∈ es)
    (only : ∀ a', (k, a') ∈ es → a' = a) : (ofList es).find? k = some a := by
  rw [find?_ofList]
  cases found : (es.filter (·.1 = k)).getLast? with
  | none =>
    have nothing := List.getLast?_eq_none_iff.mp found
    have listed : (k, a) ∈ es.filter (·.1 = k) := List.mem_filter.mpr ⟨mem, by simp⟩
    rw [nothing] at listed
    cases listed
  | some e =>
    have listed := List.mem_filter.mp (List.mem_of_getLast? found)
    obtain ⟨k', a'⟩ := e
    obtain rfl : k' = k := by simpa using listed.2
    rw [Option.map_some, only a' listed.1]

end Table

/-! ## Related lists -/

theorem exists_of_forall₂ {α β : Type} {p : α → β → Prop} {l : List α} {l' : List β}
    (h : List.Forall₂ p l l') {b : β} (hb : b ∈ l') : ∃ a ∈ l, p a b := by
  induction h with
  | nil => cases hb
  | cons first _ ih =>
    rcases List.mem_cons.mp hb with rfl | hb
    · exact ⟨_, List.mem_cons_self, first⟩
    · obtain ⟨a, ha, related⟩ := ih hb
      exact ⟨a, List.mem_cons_of_mem _ ha, related⟩

theorem exists_append_of_forall₂ {α β : Type} {R : α → β → Prop} {l l' : List α} {r : List β}
    (h : List.Forall₂ R (l ++ l') r) :
    ∃ r₁ r₂, r = r₁ ++ r₂ ∧ List.Forall₂ R l r₁ ∧ List.Forall₂ R l' r₂ := by
  induction l generalizing r with
  | nil => exact ⟨[], r, rfl, .nil, h⟩
  | cons x l ih =>
    obtain ⟨y, r, first, others, rfl⟩ := List.forall₂_cons_left_iff.mp h
    obtain ⟨r₁, r₂, rfl, left, right⟩ := ih others
    exact ⟨y :: r₁, r₂, rfl, .cons first left, right⟩

theorem forall₂_imp_of_mem {α β : Type} {p q : α → β → Prop} {l : List α} {l' : List β}
    (h : List.Forall₂ p l l') (imp : ∀ a ∈ l, ∀ b, p a b → q a b) : List.Forall₂ q l l' := by
  induction h with
  | nil => exact .nil
  | cons first _ ih =>
    obtain ⟨this, others⟩ := List.forall_mem_cons.mp imp
    exact .cons (this _ first) (ih others)

theorem forall₂_trans {α β γ : Type} {p : α → β → Prop} {q : β → γ → Prop} {r : α → γ → Prop}
    {l : List α} {l' : List β} {l'' : List γ} (h : List.Forall₂ p l l')
    (h' : List.Forall₂ q l' l'') (trans : ∀ a b c, p a b → q b c → r a c) :
    List.Forall₂ r l l'' := by
  induction h generalizing l'' with
  | nil =>
    cases h'
    exact .nil
  | cons first _ ih =>
    cases h' with
    | cons first' others => exact .cons (trans _ _ _ first first') (ih others)

end IdlLinker
