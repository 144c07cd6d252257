import Mathlib.Data.List.Basic
import Mathlib.Data.List.Infix

/-!
# Lexical resolution of paths

A path is a list of characters, split at a separator. A directory is the list of the names that lead
to it, the innermost first; an absolute path starts at the root, any other at the working directory
`cwd`. Symbolic links are not looked at.

Results:
* `follow_append`, `suffix_follow`: components are followed one after the other, and without a
  parent component they only lead further down;
* `resolve_trailing`: a separator at the end changes nothing;
* `resolve_below`: what is appended to a path without a parent component stays below it.
-/

namespace AsioLearn.Lib.Path

variable {α : Type*} [DecidableEq α]

/-- Follow one component: an empty one and `dot` stay, two dots lead to the parent. -/
def enter (dot : α) (dir : List (List α)) (name : List α) : List (List α) :=
  if name = [] ∨ name = [dot] then dir
  else if name = [dot, dot] then dir.tail
  else name :: dir

/-- Follow the components. -/
def follow (dot : α) (dir names : List (List α)) : List (List α) := names.foldl (enter dot) dir

/-- Where a path leads. -/
def resolve (sep dot : α) (cwd : List (List α)) (path : List α) : List (List α) :=
  follow dot (if path.head? = some sep then [] else cwd) (path.splitOn sep)

/-! ## Components -/

theorem follow_append (dot : α) (dir names names' : List (List α)) :
    follow dot dir (names ++ names') = follow dot (follow dot dir names) names' :=
  List.foldl_append

theorem suffix_enter {dot : α} (dir : List (List α)) {name : List α} (h : name ≠ [dot, dot]) :
    dir <:+ enter dot dir name := by
  unfold enter
  split_ifs
  · exact List.suffix_refl dir
  · exact List.suffix_cons name dir

theorem suffix_follow {dot : α} (dir : List (List α)) {names : List (List α)}
    (h : ∀ name ∈ names, name ≠ [dot, dot]) : dir <:+ follow dot dir names := by
  induction names generalizing dir with
  | nil => exact List.suffix_refl dir
  | cons name names ih =>
    have hname := suffix_enter dir (h name List.mem_cons_self)
    exact hname.trans (ih (enter dot dir name) fun n hn => h n (List.mem_cons_of_mem name hn))

/-- The components of a path are pieces of it. -/
theorem infix_of_mem_splitOn {sep : α} {path name : List α} (h : name ∈ path.splitOn sep) :
    name <:+: path := by
  -- the first component is also a prefix, which is what lets a character be put in front of it
  suffices hall : ∀ first rest, path.splitOn sep = first :: rest →
      first <+: path ∧ ∀ n ∈ rest, n <:+: path by
    cases hs : path.splitOn sep with
    | nil => exact absurd hs (List.splitOn_ne_nil sep path)
    | cons first rest =>
      obtain ⟨hfirst, hrest⟩ := hall first rest hs
      rw [hs] at h
      rcases List.mem_cons.mp h with rfl | h
      · exact hfirst.isInfix
      · exact hrest name h
  clear h
  induction path with
  | nil =>
    intro first rest hs
    rw [List.splitOn_nil] at hs
    obtain ⟨rfl, rfl⟩ := List.cons.inj hs
    exact ⟨List.prefix_refl [], fun n hn => by cases hn⟩
  | cons c path ih =>
    intro first rest hs
    rw [List.splitOn_cons_eq_if_modifyHead] at hs
    cases hp : path.splitOn sep with
    | nil => exact absurd hp (List.splitOn_ne_nil sep path)
    | cons first' rest' =>
      obtain ⟨hfirst, hrest⟩ := ih first' rest' hp
      rw [hp] at hs
      split_ifs at hs
      · obtain ⟨rfl, rfl⟩ := List.cons.inj hs
        refine ⟨List.nil_prefix, fun n hn => ?_⟩
        rcases List.mem_cons.mp hn with rfl | hn
        · exact List.infix_cons hfirst.isInfix
        · exact List.infix_cons (hrest n hn)
      · obtain ⟨rfl, rfl⟩ := List.cons.inj hs
        exact ⟨List.cons_prefix_cons.mpr ⟨rfl, hfirst⟩, fun n hn => List.infix_cons (hrest n hn)⟩

omit [DecidableEq α] in
/-- Another character between two lists keeps what is doubled in neither from being doubled. -/
theorem not_infix_append {d s : α} (hs : s ≠ d) {t b : List α} (ht : ¬ [d, d] <:+: t ++ [s])
    (hb : ¬ [d, d] <:+: b) : ¬ [d, d] <:+: t ++ s :: b := by
  induction t with
  | nil =>
    intro h
    rcases List.infix_cons_iff.mp h with h | h
    · exact hs (List.cons_prefix_cons.mp h).1.symm
    · exact hb h
  | cons c t ih =>
    intro h
    rcases List.infix_cons_iff.mp h with h | h
    · obtain ⟨hc, hnext⟩ := List.cons_prefix_cons.mp h
      cases t with
      | nil => exact hs (List.cons_prefix_cons.mp hnext).1.symm
      | cons c' t =>
        obtain ⟨hc', -⟩ := List.cons_prefix_cons.mp hnext
        exact ht ⟨[], t ++ [s], by rw [← hc, ← hc']; rfl⟩
    · exact ih (fun hin => ht (List.infix_cons hin)) h

/-! ## Paths -/

theorem resolve_append (sep dot : α) (cwd : List (List α)) {base : List α} (h : base ≠ [])
    (rest : List α) :
    resolve sep dot cwd (base ++ sep :: rest) =
      follow dot (resolve sep dot cwd base) (rest.splitOn sep) := by
  unfold resolve
  rw [List.head?_append_of_ne_nil base h, List.splitOn_append_cons_self, follow_append]

theorem resolve_trailing (sep dot : α) (cwd : List (List α)) {base : List α} (h : base ≠ []) :
    resolve sep dot cwd (base ++ [sep]) = resolve sep dot cwd base := by
  rw [resolve_append sep dot cwd h, List.splitOn_nil]
  simp [follow, enter]

/-- What has no parent component stays below the path it is appended to. -/
theorem resolve_below {sep dot : α} (cwd : List (List α)) {base rest : List α} (h : base ≠ [])
    (hrest : [dot, dot] ∉ rest.splitOn sep) :
    resolve sep dot cwd base <:+ resolve sep dot cwd (base ++ sep :: rest) := by
  rw [resolve_append sep dot cwd h]
  exact suffix_follow _ fun name hname heq => hrest (heq ▸ hname)

end AsioLearn.Lib.Path
