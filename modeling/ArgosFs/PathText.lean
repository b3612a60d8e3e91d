import Mathlib.Data.List.Basic
import ArgosFs.Types

/-!
# Paths as text

`clean_path` keeps a stack of the components of a path: empty components and dots are skipped, two
dots take the last one off. Its result is the text of that stack, so all that the functions of paths
do can be said of stacks:

* **cleaning** — the stack of the text of a stack is that stack (`cleanStack_textOf`), so cleaning
  twice is cleaning once;
* **joining** — what follows a slash is pushed on the stack of what stands before it
  (`cleanStack_append`);
* **the parent** — the stack without its last component (`parentName_ok`).
-/

namespace ArgosFs

open List

/-- The text of a path, or of a component of one. -/
abbrev PathText := List Char

/-- One component, in the loop of `clean_path`. -/
def pushComponent (stack : List PathText) (component : PathText) : List PathText :=
  if component = [] ∨ component = ['.'] then stack
  else if component = ['.', '.'] then stack.dropLast
  else stack ++ [component]

/-- The stack of `clean_path`. A leading slash clears it while it is still empty. -/
def cleanStack (path : PathText) : List PathText :=
  (List.splitOn '/' path).foldl pushComponent []

/-- `parts.join("/")`. -/
def joinParts (parts : List PathText) : PathText := List.intercalate ['/'] parts

/-- The absolute path with these components. -/
def textOf (parts : List PathText) : PathText :=
  if parts = [] then ['/'] else '/' :: joinParts parts

/-- `clean_path`. -/
def cleanPath (path : PathText) : PathText := textOf (cleanStack path)

/-- `split_path`. -/
def splitPath (path : PathText) : List PathText :=
  (List.splitOn '/' (cleanPath path)).filter (· ≠ [])

/-- `parent_name`. -/
def parentName (path : PathText) : Result (PathText × PathText) :=
  let cleaned := cleanPath path
  if cleaned = ['/'] then .error (.invalid "root has no parent")
  else
    let parts := splitPath cleaned
    match parts.getLast? with
    | none => .error (.invalid "empty path")
    | some name =>
      let parent := if parts.length = 1 then ['/'] else '/' :: joinParts parts.dropLast
      .ok (parent, name)

/-! ## Components -/

/-- What can stand on the stack. -/
structure IsComponent (component : PathText) : Prop where
  nonempty : component ≠ []
  not_dot : component ≠ ['.']
  not_dots : component ≠ ['.', '.']
  no_slash : '/' ∉ component

variable {stack parts before after : List PathText} {path target name parent : PathText}

theorem pushComponent_of_isComponent (h : IsComponent name) :
    pushComponent stack name = stack ++ [name] := by
  rw [pushComponent, if_neg (not_or.mpr ⟨h.nonempty, h.not_dot⟩), if_neg h.not_dots]

theorem foldl_pushComponent (h : ∀ c ∈ parts, IsComponent c) :
    parts.foldl pushComponent stack = stack ++ parts := by
  induction parts generalizing stack with
  | nil => simp
  | cons c rest ih =>
    obtain ⟨hc, hrest⟩ := forall_mem_cons.mp h
    rw [foldl_cons, pushComponent_of_isComponent hc, ih hrest, append_assoc, singleton_append]

theorem not_mem_of_mem_splitOn {component : PathText} (h : component ∈ List.splitOn '/' path) :
    '/' ∉ component := by
  induction path generalizing component with
  | nil =>
    rw [splitOn_nil, mem_singleton] at h
    simp [h]
  | cons c rest ih =>
    rw [splitOn_cons_eq_if_modifyHead] at h
    split_ifs at h with hc
    · obtain rfl | h := mem_cons.mp h
      · simp
      · exact ih h
    · -- the first part grows by a character that is no slash
      cases hsplit : List.splitOn '/' rest with
      | nil => exact absurd hsplit (splitOn_ne_nil _ _)
      | cons first others =>
        rw [hsplit, modifyHead_cons] at h
        obtain rfl | h := mem_cons.mp h
        · have hfirst := ih (hsplit ▸ mem_cons_self)
          simp only [beq_iff_eq] at hc
          exact fun hmem => (mem_cons.mp hmem).elim (fun heq => hc heq.symm) hfirst
        · exact ih (hsplit ▸ mem_cons_of_mem _ h)

theorem isComponent_of_mem_foldl {components : List PathText}
    (hstack : ∀ c ∈ stack, IsComponent c) (hcomponents : ∀ c ∈ components, '/' ∉ c) :
    ∀ c ∈ components.foldl pushComponent stack, IsComponent c := by
  induction components generalizing stack with
  | nil => exact hstack
  | cons component rest ih =>
    obtain ⟨hcomponent, hrest⟩ := forall_mem_cons.mp hcomponents
    refine ih ?_ hrest
    intro c hc
    rw [pushComponent] at hc
    split_ifs at hc with hskip hdots
    · exact hstack c hc
    · exact hstack c ((dropLast_sublist _).subset hc)
    · rw [not_or] at hskip
      obtain hc | hc := mem_append.mp hc
      · exact hstack c hc
      · rw [mem_singleton.mp hc]
        exact ⟨hskip.1, hskip.2, hdots, hcomponent⟩

theorem isComponent_cleanStack (path : PathText) : ∀ c ∈ cleanStack path, IsComponent c :=
  isComponent_of_mem_foldl nofun fun _ => not_mem_of_mem_splitOn

/-! ## Text and stacks -/

/-- **What follows a slash is pushed on the stack of what stands before it.** -/
theorem cleanStack_append (path rest : PathText) : cleanStack (path ++ '/' :: rest) =
      (List.splitOn '/' rest).foldl pushComponent (cleanStack path) := by
  rw [cleanStack, splitOn_append_cons_self, foldl_append, ← cleanStack]

theorem foldl_splitOn_joinParts (stack : List PathText) (h : ∀ c ∈ parts, IsComponent c) :
    (List.splitOn '/' (joinParts parts)).foldl pushComponent stack = stack ++ parts := by
  by_cases hparts : parts = []
  · simp [hparts, joinParts, pushComponent]
  · rw [joinParts, splitOn_intercalate '/' (fun c hc => (h c hc).no_slash) hparts]
    exact foldl_pushComponent h

theorem cleanStack_textOf (h : ∀ c ∈ parts, IsComponent c) : cleanStack (textOf parts) = parts := by
  rw [textOf]
  split_ifs with hparts
  · rw [hparts]
    rfl
  · have hsplit := cleanStack_append [] (joinParts parts)
    rw [nil_append, foldl_splitOn_joinParts _ h] at hsplit
    exact hsplit

theorem cleanStack_cleanPath : cleanStack (cleanPath path) = cleanStack path :=
  cleanStack_textOf (isComponent_cleanStack path)

theorem cleanPath_eq_root : cleanPath path = ['/'] ↔ cleanStack path = [] := by
  rw [cleanPath, textOf]
  split_ifs with hempty
  · exact iff_of_true rfl hempty
  · refine iff_of_false (fun h => ?_) hempty
    -- the text of a component is not empty
    have hjoin : joinParts (cleanStack path) = [] := (List.cons.inj h).2
    have hstack := foldl_splitOn_joinParts [] (isComponent_cleanStack path)
    rw [hjoin] at hstack
    exact hempty hstack.symm

theorem splitPath_eq : splitPath path = cleanStack path := by
  have hcomponents := isComponent_cleanStack path
  have hfilter : (cleanStack path).filter (· ≠ []) = cleanStack path :=
    filter_eq_self.mpr fun c hc => by simpa using (hcomponents c hc).nonempty
  rw [splitPath, cleanPath, textOf]
  split_ifs with hempty
  · rw [hempty]
    decide
  · have hslash : '/' :: joinParts (cleanStack path) = [] ++ '/' :: joinParts (cleanStack path) :=
      rfl
    rw [hslash, splitOn_append_cons_self, joinParts,
      splitOn_intercalate '/' (fun c hc => (hcomponents c hc).no_slash) hempty]
    simpa using hfilter

/-- **The parent of a path is the stack without its last component.** -/
theorem parentName_ok (h : parentName path = .ok (parent, name)) :
    ∃ parts, cleanStack path = parts ++ [name] ∧ parent = textOf parts := by
  rw [parentName] at h
  split_ifs at h with hroot
  rw [splitPath_eq, cleanStack_cleanPath] at h
  dsimp only at h
  split at h
  · cases h
  · next last hlast =>
    cases h
    obtain ⟨parts, hparts⟩ := getLast?_eq_some_iff.mp hlast
    refine ⟨parts, hparts, ?_⟩
    rw [hparts, textOf, dropLast_concat]
    by_cases hempty : parts = []
    · simp [hempty]
    · rw [if_neg hempty, if_neg]
      simpa using hempty

end ArgosFs
