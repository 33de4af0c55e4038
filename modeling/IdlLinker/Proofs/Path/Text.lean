import IdlLinker.Proofs.Path.NormalForm
import Mathlib.Data.List.Basic

/-!
# The text of a path

What a path says is read off the pieces between its slashes. All but two facts about the text are in
these pieces: whether the path begins at the root, and whether it begins with a point, which is a
step that leads nowhere. So a path is its `body`, the steps of its pieces, from the root if it is
absolute and from anywhere otherwise.

The body of two paths that are joined is that of the one followed by that of the other, however many
slashes there are between them (`body_join`). Writing steps one after the other is joining as well,
so that what is written can be read again (`body_foldl_append`). It has to be written with *plain*
names: those that are one piece and stand for a name.
-/

namespace IdlLinker.Path

/-- A path begins at the root. -/
def IsAbsolute (p : String) : Prop := p.toList.head? = some '/'

instance (p : String) : Decidable (IsAbsolute p) := inferInstanceAs (Decidable (_ = _))

/-- A name that can be a piece of a path, and stands for itself there. -/
structure IsPlain (name : String) : Prop where
  ne_empty : name ≠ ""
  ne_here : name ≠ "."
  ne_up : name ≠ ".."
  noSlash : '/' ∉ name.toList

/-- A step can be written between slashes: it goes up, or it follows a plain name. -/
inductive Step.IsWritable : Step → Prop
  | up : IsWritable .up
  | name {s : String} (plain : IsPlain s) : IsWritable (.name s)

/-- What is written for a step between slashes. -/
def Step.text : Step → String
  | .up => ".."
  | .name s => s
  | .root => ""
  | .here => "."

/-- The text that climbs so often and then follows names; a point where it does neither. -/
def descent (k : Nat) (names : List String) : String :=
  match List.replicate k ".." ++ names with
  | [] => "."
  | pieces => String.intercalate "/" pieces

/-- The path that leads to where another one leads from a directory. -/
def join (base path : String) : String := if IsAbsolute path then path else append.join base path

/-- What is left of a path when it is normalized by its text alone. -/
def normalForm (p : String) : List Step := normalize (steps p)

/-- The steps of a path without the root or the point that it begins with. -/
def body (p : String) : List Step := (pieces p.toList).filterMap step?

variable {p q base name : String} {names : List String} {s : Step} {l : List Step}
  {cs cs' piece : List Char}

/-! ## Pieces -/

theorem pieces_ne_nil (cs : List Char) : pieces cs ≠ [] := by
  cases cs with
  | nil => exact List.cons_ne_nil _ _
  | cons c cs =>
    rw [pieces]
    split
    · exact List.cons_ne_nil _ _
    · split <;> exact List.cons_ne_nil _ _

theorem pieces_append_slash (cs cs' : List Char) :
    pieces (cs ++ '/' :: cs') = pieces cs ++ pieces cs' := by
  induction cs with
  | nil => simp [pieces]
  | cons c cs ih =>
    rw [List.cons_append, pieces, pieces]
    by_cases slash : c = '/'
    · rw [if_pos slash, if_pos slash, ih, List.cons_append]
    · rw [if_neg slash, if_neg slash, ih]
      obtain ⟨first, rest, split⟩ := List.exists_cons_of_ne_nil (pieces_ne_nil cs)
      rw [split, List.cons_append]
      rfl

theorem pieces_of_notMem (h : '/' ∉ cs) : pieces cs = [cs] := by
  induction cs with
  | nil => rfl
  | cons c cs ih =>
    rw [List.mem_cons, not_or] at h
    rw [pieces, if_neg (Ne.symm h.1), ih h.2]

theorem notMem_of_mem_pieces (h : piece ∈ pieces cs) : '/' ∉ piece := by
  induction cs generalizing piece with
  | nil =>
    rw [pieces, List.mem_singleton] at h
    rw [h]
    exact List.not_mem_nil
  | cons c cs ih =>
    rw [pieces] at h
    by_cases slash : c = '/'
    · rw [if_pos slash, List.mem_cons] at h
      rcases h with rfl | h
      · exact List.not_mem_nil
      · exact ih h
    · obtain ⟨first, rest, split⟩ := List.exists_cons_of_ne_nil (pieces_ne_nil cs)
      rw [if_neg slash, split] at h
      rcases List.mem_cons.mp h with rfl | h
      · rw [List.mem_cons, not_or]
        exact ⟨Ne.symm slash, ih (split ▸ List.mem_cons_self)⟩
      · exact ih (split ▸ List.mem_cons_of_mem _ h)

theorem isAbsolute_iff : IsAbsolute p ↔ ∃ rest, pieces p.toList = [] :: rest ∧ rest ≠ [] := by
  rw [IsAbsolute]
  cases p.toList with
  | nil => simp [pieces]
  | cons c cs =>
    obtain ⟨first, rest, split⟩ := List.exists_cons_of_ne_nil (pieces_ne_nil cs)
    by_cases slash : c = '/' <;> simp [pieces, slash, split]

/-! ## The body of a path -/

theorem step?_eq_some_iff : step? piece = some s ↔
    piece ≠ [] ∧ piece ≠ ['.'] ∧
      s = if piece = ['.', '.'] then .up else .name (String.ofList piece) := by
  rw [step?]
  by_cases blank : piece = [] ∨ piece = ['.']
  · rw [if_pos blank]
    rcases blank with rfl | rfl <;> simp
  · rw [if_neg blank, ← and_assoc, ← not_or, and_iff_right blank]
    split <;> simp [eq_comm]

theorem isWritable_of_mem_body (h : s ∈ body p) : s.IsWritable := by
  obtain ⟨piece, hp, stands⟩ := List.mem_filterMap.mp h
  obtain ⟨notEmpty, notHere, rfl⟩ := step?_eq_some_iff.mp stands
  by_cases up : piece = ['.', '.']
  · rw [if_pos up]
    exact .up
  · rw [if_neg up]
    refine .name ⟨?_, ?_, ?_, ?_⟩
    · simpa [← String.toList_inj] using notEmpty
    · simpa [← String.toList_inj] using notHere
    · simpa [← String.toList_inj] using up
    · simpa using notMem_of_mem_pieces hp

theorem root_notMem_body : Step.root ∉ body p := by
  intro h
  cases isWritable_of_mem_body h

theorem steps_of_isAbsolute (h : IsAbsolute p) : steps p = .root :: body p := by
  obtain ⟨rest, split, more⟩ := isAbsolute_iff.mp h
  rw [steps, body, split]
  exact if_pos ⟨rfl, more⟩

/-- A relative path is its body, possibly after a point. -/
theorem steps_of_not_isAbsolute (h : ¬IsAbsolute p) :
    steps p = body p ∨ steps p = .here :: body p := by
  obtain ⟨first, rest, split⟩ := List.exists_cons_of_ne_nil (pieces_ne_nil p.toList)
  have notRoot : ¬(first = [] ∧ rest ≠ []) := by
    rintro ⟨rfl, more⟩
    exact h (isAbsolute_iff.mpr ⟨rest, split, more⟩)
  rw [steps, body, split]
  dsimp only
  rw [if_neg notRoot]
  by_cases point : first = ['.']
  · exact Or.inr (if_pos point)
  · exact Or.inl (if_neg point)

theorem normalForm_of_isAbsolute (h : IsAbsolute p) :
    normalForm p = rooted ((body p).foldl walk []) := by
  rw [normalForm, steps_of_isAbsolute h, normalize_root_cons root_notMem_body]

theorem normalForm_of_not_isAbsolute (h : ¬IsAbsolute p) : normalForm p = normalize (body p) := by
  rw [normalForm]
  rcases steps_of_not_isAbsolute h with same | same <;> rw [same]
  rfl

/-! ## Joining -/

/-- Text with a piece joined to it is the text with the piece after a slash, unless a slash is there
or nothing is. -/
theorem append_join_cases (text piece : String) :
    (text = "" ∧ append.join text piece = piece) ∨
      (∃ cs, text.toList = cs ++ ['/'] ∧
        (append.join text piece).toList = cs ++ '/' :: piece.toList) ∨
      (text ≠ "" ∧ (append.join text piece).toList = text.toList ++ '/' :: piece.toList) := by
  rw [append.join]
  by_cases empty : text = ""
  · refine Or.inl ⟨empty, ?_⟩
    rw [if_pos (Or.inl empty), empty, String.empty_append]
  · refine Or.inr ?_
    by_cases slash : text.toList.getLast? = some '/'
    · obtain ⟨cs, ends⟩ := List.getLast?_eq_some_iff.mp slash
      refine Or.inl ⟨cs, ends, ?_⟩
      rw [if_pos (Or.inr slash), String.toList_append, ends, List.append_assoc]
      rfl
    · refine Or.inr ⟨empty, ?_⟩
      rw [if_neg (by tauto), String.toList_append, String.toList_append, List.append_assoc]
      rfl

theorem body_append_join (text piece : String) :
    body (append.join text piece) = body text ++ body piece := by
  rcases append_join_cases text piece with ⟨rfl, joined⟩ | ⟨cs, ends, joined⟩ | ⟨-, joined⟩
  · rw [joined]
    rfl
  · rw [body, joined, body, ends, pieces_append_slash, pieces_append_slash, List.filterMap_append,
      List.filterMap_append, body]
    simp [pieces, step?]
  · rw [body, joined, pieces_append_slash, List.filterMap_append, body, body]

theorem isAbsolute_append_join {text piece : String} (h : ¬IsAbsolute piece) :
    IsAbsolute (append.join text piece) ↔ IsAbsolute text := by
  rcases append_join_cases text piece with ⟨rfl, joined⟩ | ⟨cs, ends, joined⟩ | ⟨filled, joined⟩
  · rw [joined]
    exact iff_of_false h (by decide)
  · rw [IsAbsolute, IsAbsolute, joined, ends]
    cases cs <;> rfl
  · rw [IsAbsolute, IsAbsolute, joined]
    cases letters : text.toList with
    | nil => exact absurd (String.toList_eq_nil_iff.mp letters) filled
    | cons c cs => rfl

theorem join_of_isAbsolute (h : IsAbsolute p) : join base p = p := if_pos h

theorem body_join (h : ¬IsAbsolute p) : body (join base p) = body base ++ body p := by
  rw [join, if_neg h, body_append_join]

theorem isAbsolute_join (h : ¬IsAbsolute p) : IsAbsolute (join base p) ↔ IsAbsolute base := by
  rw [join, if_neg h, isAbsolute_append_join h]

/-! ## Writing steps -/

theorem Step.IsWritable.append_eq (h : s.IsWritable) (text : String) :
    append text s = append.join text s.text := by
  cases h <;> rfl

theorem Step.IsWritable.body_text (h : s.IsWritable) : body s.text = [s] := by
  cases h with
  | up => rfl
  | @name n plain =>
    have stands : step? n.toList = some (.name n) := by
      rw [step?_eq_some_iff]
      refine ⟨?_, ?_, ?_⟩
      · simpa using plain.ne_empty
      · simpa [← String.toList_inj] using plain.ne_here
      · rw [if_neg (by simpa [← String.toList_inj] using plain.ne_up), String.ofList_toList]
    rw [Step.text, body, pieces_of_notMem plain.noSlash, List.filterMap_cons_some stands,
      List.filterMap_nil]

theorem Step.IsWritable.noSlash (h : s.IsWritable) : '/' ∉ s.text.toList := by
  cases h with
  | up => decide
  | name plain => exact plain.noSlash

theorem Step.IsWritable.text_ne_empty (h : s.IsWritable) : s.text ≠ "" := by
  cases h with
  | up => decide
  | name plain => exact plain.ne_empty

theorem Step.IsWritable.not_isAbsolute_text (h : s.IsWritable) : ¬IsAbsolute s.text := by
  intro absolute
  exact h.noSlash (List.mem_of_mem_head? (Option.mem_def.mpr absolute))

/-- Steps that are written after a text are read after it. -/
theorem body_foldl_append (h : ∀ s ∈ l, s.IsWritable) (text : String) :
    body (l.foldl append text) = body text ++ l := by
  induction l generalizing text with
  | nil => rw [List.foldl_nil, List.append_nil]
  | cons s l ih =>
    obtain ⟨this, others⟩ := List.forall_mem_cons.mp h
    rw [List.foldl_cons, ih others, this.append_eq, body_append_join, this.body_text,
      List.append_assoc, List.singleton_append]

theorem isAbsolute_foldl_append (h : ∀ s ∈ l, s.IsWritable) (text : String) :
    IsAbsolute (l.foldl append text) ↔ IsAbsolute text := by
  induction l generalizing text with
  | nil => rw [List.foldl_nil]
  | cons s l ih =>
    obtain ⟨this, others⟩ := List.forall_mem_cons.mp h
    rw [List.foldl_cons, ih others, this.append_eq, isAbsolute_append_join this.not_isAbsolute_text]

theorem render_of_ne_nil (filled : l ≠ []) : render l = l.foldl append "" := by
  rw [render, if_neg (by simpa using filled)]

theorem body_render (h : ∀ s ∈ l, s.IsWritable) :
    body (render l) = l ∧ ¬IsAbsolute (render l) := by
  by_cases none : l = []
  · rw [none]
    exact ⟨rfl, by decide⟩
  · rw [render_of_ne_nil none, body_foldl_append h, isAbsolute_foldl_append h]
    exact ⟨rfl, by decide⟩

/-- The root begins anew: what is written before it is not read. -/
theorem body_render_append_root (h : ∀ s ∈ l, s.IsWritable) (before : List Step) :
    body (render (before ++ .root :: l)) = l ∧ IsAbsolute (render (before ++ .root :: l)) := by
  have root : (before ++ .root :: l).foldl append "" = l.foldl append "/" := by
    rw [List.foldl_append]
    rfl
  rw [render_of_ne_nil (by simp), root, body_foldl_append h, isAbsolute_foldl_append h]
  exact ⟨rfl, by decide⟩

theorem isWritable_of_mem_climbing {k : Nat} (plain : ∀ name ∈ names, IsPlain name) :
    ∀ s ∈ climbing k names, s.IsWritable := by
  intro s hs
  rcases List.mem_append.mp hs with up | follows
  · rw [List.eq_of_mem_replicate up]
    exact .up
  · obtain ⟨name, hn, rfl⟩ := List.mem_map.mp follows
    exact .name (plain name hn)

/-- What is written for a step needs a slash before more is written. -/
theorem Step.IsWritable.unclosed_append (h : s.IsWritable) (text : String) :
    ¬(text ++ s.text = "" ∨ (text ++ s.text).toList.getLast? = some '/') := by
  rintro (empty | closed)
  · exact h.text_ne_empty (String.append_eq_empty_iff.mp empty).2
  · have filled : s.text.toList ≠ [] := fun empty ↦
      h.text_ne_empty (String.toList_eq_nil_iff.mp empty)
    rw [String.toList_append, List.getLast?_append_of_ne_nil _ filled] at closed
    exact h.noSlash (List.mem_of_getLast? closed)

/-- After a text that needs a slash, the steps are written with slashes between them. -/
theorem foldl_append_eq (h : ∀ s ∈ l, s.IsWritable) {text : String}
    (unclosed : ¬(text = "" ∨ text.toList.getLast? = some '/')) :
    l.foldl append text = String.intercalate "/" (text :: l.map Step.text) := by
  induction l generalizing text with
  | nil => rw [List.foldl_nil, List.map_nil, String.intercalate_singleton]
  | cons s l ih =>
    obtain ⟨this, others⟩ := List.forall_mem_cons.mp h
    rw [List.foldl_cons, this.append_eq, append.join, if_neg unclosed,
      ih others (this.unclosed_append _), List.map_cons, String.intercalate_cons_append,
      String.intercalate_cons_cons]

theorem map_text_climbing (k : Nat) (names : List String) :
    (climbing k names).map Step.text = List.replicate k ".." ++ names := by
  rw [climbing, List.map_append, List.map_replicate, List.map_map]
  congr 1
  exact List.map_id names

theorem render_climbing {k : Nat} (plain : ∀ name ∈ names, IsPlain name) :
    render (climbing k names) = descent k names := by
  have writable := isWritable_of_mem_climbing (k := k) plain
  rw [descent, ← map_text_climbing]
  cases written : climbing k names with
  | nil => rfl
  | cons s l =>
    rw [written] at writable
    obtain ⟨this, others⟩ := List.forall_mem_cons.mp writable
    have first : append "" s = s.text := by
      rw [this.append_eq, append.join, if_pos (Or.inl rfl), String.empty_append]
    have unclosed := this.unclosed_append ""
    rw [String.empty_append] at unclosed
    rw [render_of_ne_nil (List.cons_ne_nil _ _), List.foldl_cons, first,
      foldl_append_eq others unclosed]
    rfl

end IdlLinker.Path
