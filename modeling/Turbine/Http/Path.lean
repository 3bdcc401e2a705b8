import Turbine.Base.Str

/-!
# Turbine.Http.Path

Paths as texts and as lists of components.  The handler compares and joins
paths as texts; the file system and `Path::components` read them component by
component, where empty components and `.` do not count.

* `startsWith_iff`: when one path is a textual prefix of another, segment by
  segment.
-/

namespace Turbine.Http

open Base

/-- The pieces of a path between slashes, as written. -/
def segments (p : String) : List (List Char) := p.toList.splitOn '/'

/-- A segment that names something. -/
def counts (c : List Char) : Bool := c ≠ [] && c ≠ ['.']

/-- The components of a path: empty ones and `.` are dropped. -/
def components (p : String) : List (List Char) := (segments p).filter counts

/-- `PathBuf::join`. -/
def joinPath (root rel : String) : String :=
  if startsWith rel "/" then rel
  else if root.isEmpty || endsWith root "/" then root ++ rel
  else root ++ "/" ++ rel

variable {p d : String}

/-! ## joining -/

theorem segments_append_slash (a b : String) :
    segments (a ++ "/" ++ b) = segments a ++ segments b := by
  have htext : (a ++ "/" ++ b).toList = a.toList ++ '/' :: b.toList := by simp
  rw [segments, htext]
  exact List.splitOnP_append_cons a.toList b.toList (by decide)

/-- A slash between two paths appends their components. -/
theorem components_append_slash (a b : String) :
    components (a ++ "/" ++ b) = components a ++ components b := by
  rw [components, segments_append_slash, List.filter_append]
  rfl

theorem components_trailing_slash (a : String) : components (a ++ "/") = components a := by
  have happend := components_append_slash a ""
  rw [String.append_empty] at happend
  rw [happend]
  exact List.append_nil _

theorem endsWith_slash (h : endsWith p "/" = true) : ∃ q, p = q ++ "/" := by
  obtain ⟨front, hfront⟩ := List.isSuffixOf_iff_suffix.1 h
  refine ⟨String.ofList front, String.toList_inj.1 ?_⟩
  rw [String.toList_append, String.toList_ofList]
  exact hfront.symm

theorem components_joinPath {root rel : String} (h : startsWith rel "/" = false) :
    components (joinPath root rel) = components root ++ components rel := by
  unfold joinPath
  rw [h]
  simp only [Bool.false_eq_true, if_false]
  split
  case isTrue hends =>
    obtain hempty | hends := Bool.or_eq_true_iff.1 hends
    · rw [String.isEmpty_iff.1 hempty, String.empty_append]
      rfl
    · obtain ⟨q, rfl⟩ := endsWith_slash hends
      rw [components_append_slash, components_trailing_slash]
  case isFalse => exact components_append_slash root rel

theorem joinPath_absolute {root rel : String} (h : startsWith rel "/" = true) :
    joinPath root rel = rel := by
  rw [joinPath, if_pos h]

/-! ## textual prefixes -/

/-- Splitting a text that continues another: the last piece of the first text and
the first piece of the rest become one. -/
theorem splitOn_append (xs ys : List Char) :
    ∃ front last more rest, xs.splitOn '/' = front ++ [last] ∧ ys.splitOn '/' = more :: rest ∧
      (xs ++ ys).splitOn '/' = front ++ (last ++ more) :: rest := by
  induction xs with
  | nil =>
    obtain ⟨more, rest, hys⟩ := List.exists_cons_of_ne_nil (List.splitOn_ne_nil '/' ys)
    exact ⟨[], [], more, rest, rfl, hys, hys⟩
  | cons c xs ih =>
    obtain ⟨front, last, more, rest, hxs, hys, happend⟩ := ih
    rw [List.cons_append, List.splitOn_cons_eq_if_modifyHead,
      List.splitOn_cons_eq_if_modifyHead, hxs, happend]
    split
    · exact ⟨[] :: front, last, more, rest, rfl, hys, rfl⟩
    · -- `c` belongs to the first piece, which may be the last one
      cases front with
      | nil => exact ⟨[], c :: last, more, rest, rfl, hys, rfl⟩
      | cons f front => exact ⟨(c :: f) :: front, last, more, rest, rfl, hys, rfl⟩

/-- Joining pieces again, the last of them cut short. -/
theorem intercalate_prefix (front : List (List Char)) (last more : List Char)
    (rest : List (List Char)) :
    ['/'].intercalate (front ++ [last]) <+: ['/'].intercalate (front ++ (last ++ more) :: rest) := by
  induction front with
  | nil =>
    rw [List.nil_append, List.nil_append, List.intercalate_singleton]
    cases rest with
    | nil =>
      rw [List.intercalate_singleton]
      exact List.prefix_append last more
    | cons r rest =>
      rw [List.intercalate_cons_cons, List.append_assoc, List.append_assoc]
      exact List.prefix_append last _
  | cons f front ih =>
    rw [List.cons_append, List.cons_append, List.intercalate_cons_of_ne_nil (by simp),
      List.intercalate_cons_of_ne_nil (by simp)]
    exact (List.prefix_append_right_inj _).2 ih

/-- `p` begins with the segments of `d`. -/
def Spells (d p : String) : Prop := segments d <+: segments p

/-- `p` begins with the segments of `d`, the last of which is only the beginning of
a longer name there. -/
def Extends (d p : String) : Prop :=
  ∃ front last more rest, segments d = front ++ [last] ∧ more ≠ [] ∧
    segments p = front ++ (last ++ more) :: rest

/-- A text begins with `d` iff it spells `d` or goes on with its last name. -/
theorem startsWith_iff : startsWith p d = true ↔ Spells d p ∨ Extends d p := by
  have hjoin : ∀ q : String, ['/'].intercalate (segments q) = q.toList := fun q =>
    List.intercalate_splitOn '/'
  rw [startsWith, List.isPrefixOf_iff_prefix]
  constructor
  · rintro ⟨tail, htail⟩
    obtain ⟨front, last, more, rest, hd, -, hp⟩ := splitOn_append d.toList tail
    rw [htail] at hp
    by_cases hmore : more = []
    · refine .inl ⟨rest, ?_⟩
      rw [segments, segments, hd, hp, hmore]
      simp
    · exact .inr ⟨front, last, more, rest, hd, hmore, hp⟩
  · rintro (⟨rest, hrest⟩ | ⟨front, last, more, rest, hd, -, hp⟩)
    · obtain hnil | ⟨front, last, hd⟩ := List.eq_nil_or_concat (segments d)
      · exact absurd hnil (List.splitOn_ne_nil '/' _)
      · have hjoined := intercalate_prefix front last [] rest
        rw [List.append_nil] at hjoined
        rw [← hjoin d, ← hjoin p, ← hrest, hd]
        simpa using hjoined
    · rw [← hjoin d, ← hjoin p, hd, hp]
      exact intercalate_prefix front last more rest

/-- The path lies in the directory, component by component. -/
def Inside (d p : String) : Prop := components d <+: components p

instance : Decidable (Inside d p) := inferInstanceAs (Decidable (_ <+: _))

/-- A path that spells a directory lies in it. -/
theorem Spells.inside (h : Spells d p) : Inside d p := List.IsPrefix.filter counts h

theorem components_append_slashes (xs : List Char) {slashes : List Char}
    (h : ∀ c ∈ slashes, (c == '/') = true) :
    components (String.ofList (xs ++ slashes)) = components (String.ofList xs) := by
  induction slashes generalizing xs with
  | nil => rw [List.append_nil]
  | cons c slashes ih =>
    obtain ⟨hc, hslashes⟩ := List.forall_mem_cons.1 h
    obtain rfl := beq_iff_eq.1 hc
    have hone : String.ofList (xs ++ ['/']) = String.ofList xs ++ "/" :=
      String.toList_inj.1 (by simp)
    rw [List.append_cons, ih _ hslashes, hone, components_trailing_slash]

theorem components_trimEndMatches (d : String) :
    components (trimEndMatches d '/') = components d := by
  have hsplit : d.toList = (d.toList.reverse.dropWhile (· == '/')).reverse ++
      (d.toList.reverse.takeWhile (· == '/')).reverse := by
    rw [← List.reverse_append, List.takeWhile_append_dropWhile, List.reverse_reverse]
  have hslashes : ∀ c ∈ (d.toList.reverse.takeWhile (· == '/')).reverse, (c == '/') = true :=
    fun c hc => List.all_eq_true.1 List.all_takeWhile c (List.mem_reverse.1 hc)
  calc
    components (trimEndMatches d '/') = components (String.ofList _) :=
      (components_append_slashes _ hslashes).symm
    _ = components d := by rw [← hsplit, String.ofList_toList]

end Turbine.Http
