import Mathlib.Data.List.Chain
import Mathlib.Data.List.Rotate
import ArgosFs.DirectoryListing

/-!
# Windows of an incremental scan

Scrub and rebalance visit the regular files a few at a time. A call goes on after the inode that the
last call ended with, in the order of the inode numbers, and starts again at the lowest one when
there is no higher one.

No step of the scan passes over a file that is there (`NoSkip`): the scan goes on to the next file,
or wraps from the highest to the lowest one (`isChain_visits`). So what is between two wraps has
every file that was there throughout (`mem_between_wraps`). And as long as a file is not visited, no
other file is visited twice (`nodup_of_not_mem`), so if the files stay the same, as many calls as it
takes to count them visit them all.
-/

namespace ArgosFs

open List

def usizeMax : Nat := 2 ^ 64 - 1

/-- The regular files, by inode number. -/
def MetadataCore.files (core : MetadataCore) : List (InodeId × Inode) :=
  core.inodes.entries.filter fun entry => entry.2.kind = .file

/-- `file_window`. The cycle through the files from `start` on is their rotation, of which no more
than one round is taken. -/
def fileWindow (core : MetadataCore) (cursor : Option InodeId) (maxFiles : Nat) :
    List (InodeId × Inode) :=
  let files := core.files
  if files.isEmpty ∨ maxFiles = 0 then []
  else if maxFiles = usizeMax then files
  else
    let start := (cursor.bind fun cursor => files.findIdx? (cursor < ·.1)).getD 0
    (files.rotate start).take (min maxFiles files.length)

section Scan

variable (maxFiles : Nat) (cores : Nat → MetadataCore) (cursor : Option InodeId)

/-- The cursor before the `i`-th call of a scan that finds `cores i`: the last inode of the window
before. -/
def scanCursor : Nat → Option InodeId
  | 0 => cursor
  | i + 1 =>
    ((fileWindow (cores i) (scanCursor i) maxFiles).map Prod.fst).getLast?.or (scanCursor i)

/-- The inodes that the `i`-th call visits. -/
def scanWindow (i : Nat) : List InodeId :=
  (fileWindow (cores i) (scanCursor maxFiles cores cursor i) maxFiles).map Prod.fst

/-- The inodes that the first `n` calls visit. -/
def visits (n : Nat) : List InodeId := (List.range n).flatMap (scanWindow maxFiles cores cursor)

theorem scanCursor_succ (i : Nat) : scanCursor maxFiles cores cursor (i + 1) =
      (scanWindow maxFiles cores cursor i).getLast?.or (scanCursor maxFiles cores cursor i) := rfl

theorem visits_succ (n : Nat) : visits maxFiles cores cursor (n + 1) =
    visits maxFiles cores cursor n ++ scanWindow maxFiles cores cursor n := by
  simp [visits, range_succ]

end Scan

/-! ## Steps of a scan -/

variable {x a b c first : Nat} {l as bs rest : List Nat}

/-- The scan goes on from `a` to `b` and does not pass over `x`. -/
def NoSkip (x a b : Nat) : Prop := a < b ∧ (x ≤ a ∨ b ≤ x) ∨ b ≤ a ∧ b ≤ x ∧ x ≤ a

theorem isChain_sorted (hsorted : l.Pairwise (· < ·)) (hx : x ∈ l) : l.IsChain (NoSkip x) := by
  refine isChain_iff_forall_rel_of_append_cons_cons.mpr fun {a b l₁ l₂} heq => ?_
  subst heq
  obtain ⟨-, hab, hbefore⟩ := pairwise_append.mp hsorted
  refine .inl ⟨rel_of_pairwise_cons hab mem_cons_self, ?_⟩
  obtain hx | hx | hx := (mem_append.trans (or_congr_right mem_cons)).mp hx
  · exact .inl (hbefore x hx a mem_cons_self).le
  · exact .inl hx.le
  · refine .inr ?_
    obtain rfl | hx := mem_cons.mp hx
    · exact le_rfl
    · exact (rel_of_pairwise_cons hab.tail hx).le

theorem isChain_round (hsorted : (as ++ bs).Pairwise (· < ·)) (hx : x ∈ as ++ bs) :
    (bs ++ as).IsChain (NoSkip x) := by
  obtain ⟨has, hbs, -⟩ := isChain_append.mp (isChain_sorted hsorted hx)
  refine hbs.append has fun a ha b hb => .inr ?_
  obtain ⟨bs, rfl⟩ := getLast?_eq_some_iff.mp ha
  obtain ⟨as, rfl⟩ := head?_eq_some_iff.mp hb
  simp only [pairwise_append, pairwise_cons, mem_cons, mem_append] at hsorted hx
  grind

theorem follows_lowest (hsorted : l.Pairwise (· < ·)) (hx : x ∈ l) (hc : x ≤ c)
    (hb : b ∈ l.head?) : NoSkip x c b := by
  obtain ⟨l, rfl⟩ := head?_eq_some_iff.mp hb
  have hle : b ≤ x := by
    obtain rfl | hx := mem_cons.mp hx
    · exact le_rfl
    · exact (rel_of_pairwise_cons hsorted hx).le
  exact .inr ⟨hle.trans hc, hle, hc⟩

theorem mem_between_wraps (hchain : (first :: (rest ++ [b])).IsChain (NoSkip x))
    (hsorted : (first :: rest).Pairwise (· < ·)) (hb : b ≤ rest.getLastD first)
    (hfirst : first ≤ x) : x ∈ first :: rest := by
  induction rest generalizing first with
  | nil =>
    obtain ⟨hlt, -⟩ | ⟨-, -, hle⟩ := (isChain_cons_cons.mp hchain).1
    · exact absurd hlt hb.not_gt
    · exact mem_singleton.mpr (le_antisymm hle hfirst)
  | cons next rest ih =>
    rw [cons_append, isChain_cons_cons] at hchain
    have hlt := rel_of_pairwise_cons hsorted mem_cons_self
    obtain ⟨-, hle | hle⟩ | ⟨hle, -⟩ := hchain.1
    · exact mem_cons.mpr (.inl (le_antisymm hle hfirst))
    · rw [getLastD_cons] at hb
      exact mem_cons_of_mem _ (ih hchain.2 hsorted.tail hb hle)
    · exact absurd hlt hle.not_gt

/-- **As long as a file is not visited, no file is visited twice**: the scan goes through the files
above it and then through those below. -/
theorem nodup_of_not_mem (hchain : l.IsChain (NoSkip x)) (hx : x ∉ l) : l.Nodup := by
  let After (a b : Nat) : Prop := x < a ∧ a < b ∨ x < a ∧ b < x ∨ a < b ∧ b < x
  have htrans : ∀ a b c, After a b → After b c → After a c := by
    intro a b c hab hbc
    simp only [After] at hab hbc ⊢
    omega
  have : Trans After After After := ⟨fun hab hbc => htrans _ _ _ hab hbc⟩
  have hafter : l.IsChain After := by
    refine isChain_iff_forall_rel_of_append_cons_cons.mpr fun {a b l₁ l₂} heq => ?_
    have hstep := isChain_iff_forall_rel_of_append_cons_cons.mp hchain heq
    rw [heq] at hx
    simp only [mem_append, mem_cons, not_or] at hx
    simp only [NoSkip] at hstep
    simp only [After]
    omega
  refine (isChain_iff_pairwise.mp hafter).imp fun hab => ?_
  simp only [After] at hab
  omega

/-! ## Scans -/

variable {maxFiles : Nat} {cores : Nat → MetadataCore} {cursor : Option InodeId} {ino : InodeId}
  {files : List InodeId}

def MetadataCore.fileInodes (core : MetadataCore) : List InodeId := core.files.map Prod.fst

theorem MetadataCore.sorted_fileInodes (core : MetadataCore) : core.fileInodes.Pairwise (· < ·) :=
  (core.inodes.sorted.filter _).map _ fun _ _ h => h

def windowSize (maxFiles files : Nat) : Nat :=
  if maxFiles = usizeMax then files else min maxFiles files

/-- **A window is the beginning of a round**, and the cursor goes before it. -/
theorem fileWindow_round (hmax : 1 ≤ maxFiles) (core : MetadataCore) (cursor : Option InodeId) :
    ∃ as bs, core.fileInodes = as ++ bs ∧ (fileWindow core cursor maxFiles).map Prod.fst =
        (bs ++ as).take (windowSize maxFiles core.fileInodes.length) ∧
      (∀ x ∈ core.fileInodes, ∀ c ∈ cursor, (maxFiles = usizeMax → x ≤ c) →
        ∀ b ∈ (bs ++ as).head?, NoSkip x c b) ∧ (maxFiles = usizeMax → as = []) := by
  have hsorted := core.sorted_fileInodes
  by_cases hempty : core.files = []
  · refine ⟨[], [], ?_, ?_, ?_, fun _ => rfl⟩ <;> simp [MetadataCore.fileInodes, fileWindow, hempty]
  have hsome : ¬(core.files.isEmpty = true ∨ maxFiles = 0) := by simp [hempty, Nat.ne_of_gt hmax]
  rw [fileWindow, if_neg hsome, windowSize]
  split_ifs with hall
  · refine ⟨[], core.fileInodes, rfl, ?_, fun x hx c _ hc b => ?_, fun _ => rfl⟩
    · rw [append_nil, take_length]
      rfl
    · rw [append_nil]
      exact follows_lowest hsorted hx (hc hall)
  · have hlength : core.fileInodes.length = core.files.length := length_map _
    dsimp only
    rw [map_take, map_rotate, hlength]
    cases hfound : cursor.bind fun cursor => core.files.findIdx? (cursor < ·.1) with
    | none =>
      refine ⟨[], core.fileInodes, rfl, ?_, fun x hx c hc _ b => ?_, fun _ => rfl⟩
      · rw [append_nil, Option.getD_none, rotate_zero]
        rfl
      · obtain rfl : cursor = some c := hc
        obtain ⟨entry, hentry, rfl⟩ := mem_map.mp hx
        have hle := findIdx?_eq_none_iff.mp hfound entry hentry
        rw [append_nil]
        exact follows_lowest hsorted hx (Nat.le_of_not_lt (of_decide_eq_false hle))
    | some start =>
      obtain ⟨c, rfl, hstart⟩ := Option.bind_eq_some_iff.mp hfound
      obtain ⟨hlt, hafter, hbefore⟩ := findIdx?_eq_some_iff_getElem.mp hstart
      refine ⟨core.fileInodes.take start, core.fileInodes.drop start,
        (take_append_drop start _).symm, ?_, fun x hx c hc _ b hb => ?_,
        fun h => absurd h hall⟩
      · rw [Option.getD_some, rotate_eq_drop_append_take (by simpa using hlt.le)]
        rfl
      · cases hc
        have hdrop : core.fileInodes.drop start = core.files[start].1 ::
            core.fileInodes.drop (start + 1) := by
          rw [drop_eq_getElem_cons (hlength ▸ hlt)]
          simp [MetadataCore.fileInodes]
        have hsplit := hsorted
        rw [← take_append_drop start core.fileInodes, hdrop] at hx hsplit
        rw [hdrop] at hb
        cases hb
        refine .inl ⟨of_decide_eq_true hafter, ?_⟩
        obtain hx | hx := mem_append.mp hx
        · -- the files before the window are not above the cursor
          obtain ⟨i, hi, rfl⟩ := getElem_of_mem hx
          have hle := hbefore i (by simp at hi; omega)
          left
          simpa [MetadataCore.fileInodes] using hle
        · right
          obtain rfl | hx := mem_cons.mp hx
          · exact le_rfl
          · exact (rel_of_pairwise_cons (pairwise_append.mp hsplit).2.1 hx).le

theorem le_highest (hsorted : l.Pairwise (· < ·)) (hx : x ∈ l) (ha : a ∈ l.getLast?) : x ≤ a := by
  obtain ⟨l, rfl⟩ := getLast?_eq_some_iff.mp ha
  obtain hx | hx := mem_append.mp hx
  · exact ((pairwise_append.mp hsorted).2.2 x hx a (mem_singleton_self a)).le
  · exact (mem_singleton.mp hx).le

theorem isChain_visits (cursor : Option InodeId) (hmax : 1 ≤ maxFiles) (n : Nat)
    (hino : ∀ i < n, ino ∈ (cores i).fileInodes) :
    (visits maxFiles cores cursor n).IsChain (NoSkip ino) ∧
      ∀ a ∈ (visits maxFiles cores cursor n).getLast?,
        scanCursor maxFiles cores cursor n = some a ∧ (maxFiles = usizeMax → ino ≤ a) := by
  induction n with
  | zero => simp [visits]
  | succ n ih =>
    obtain ⟨hchain, hlast⟩ := ih fun i hi => hino i (hi.trans (Nat.lt_succ_self n))
    have hmem := hino n (Nat.lt_succ_self n)
    have hsorted := (cores n).sorted_fileInodes
    obtain ⟨as, bs, hfiles, hwindow, hstart, hall⟩ := fileWindow_round hmax (cores n)
      (scanCursor maxFiles cores cursor n)
    rw [visits_succ]
    refine ⟨hchain.append ?_ fun a ha b hb => ?_, fun a ha => ?_⟩
    · rw [scanWindow, hwindow]
      rw [hfiles] at hsorted hmem
      exact (isChain_round hsorted hmem).take _
    · obtain ⟨hcursor, hle⟩ := hlast a ha
      rw [scanWindow, hwindow, head?_take] at hb
      split_ifs at hb with hnone
      · cases hb
      · exact hstart ino hmem a hcursor hle b hb
    · rw [scanCursor_succ]
      rw [getLast?_append] at ha
      cases hw : (scanWindow maxFiles cores cursor n).getLast? with
      | none =>
        rw [hw] at ha
        exact hlast a ha
      | some w =>
        rw [hw] at ha
        cases ha
        refine ⟨rfl, fun hmax => ?_⟩
        rw [scanWindow, hwindow, windowSize, if_pos hmax, hfiles, hall hmax, append_nil,
          nil_append, take_length, ← nil_append bs, ← hall hmax, ← hfiles] at hw
        exact le_highest hsorted hmem hw

section Unchanged

variable (hmax : 1 ≤ maxFiles) (hfiles : ∀ i, (cores i).fileInodes = files)
include hmax hfiles

theorem visits_unchanged (cursor : Option InodeId) (n : Nat) :
    (visits maxFiles cores cursor n).length = n * windowSize maxFiles files.length ∧
      visits maxFiles cores cursor n ⊆ files := by
  induction n with
  | zero => simp [visits]
  | succ n ih =>
    obtain ⟨as, bs, hsplit, hwindow, -⟩ := fileWindow_round hmax (cores n)
      (scanCursor maxFiles cores cursor n)
    have hlength : (bs ++ as).length = files.length := by
      rw [← hfiles n, hsplit, length_append, length_append, Nat.add_comm]
    have hle : windowSize maxFiles files.length ≤ files.length := by
      rw [windowSize]
      split_ifs <;> omega
    rw [visits_succ, scanWindow, hwindow, hfiles, length_append, ih.1, length_take,
      hlength, min_eq_left hle, Nat.add_mul, Nat.one_mul]
    refine ⟨rfl, append_subset.mpr ⟨ih.2, fun x hx => ?_⟩⟩
    rw [← hfiles n, hsplit]
    exact mem_append.mpr (mem_append.mp (mem_of_mem_take hx)).symm

theorem mem_visits (cursor : Option InodeId) (hino : ino ∈ files) {n : Nat}
    (hn : files.length ≤ n * windowSize maxFiles files.length) :
    ino ∈ visits maxFiles cores cursor n := by
  by_contra hnot
  obtain ⟨hlength, hsubset⟩ := visits_unchanged hmax hfiles cursor n
  have hchain := (isChain_visits cursor hmax n fun i _ => (hfiles i).symm ▸ hino).1
  have hothers : visits maxFiles cores cursor n ⊆ files.erase ino := by
    intro x hx
    have hne : x ≠ ino := by
      rintro rfl
      exact hnot hx
    exact (mem_erase_of_ne hne).mpr (hsubset hx)
  have hfew := (nodup_of_not_mem hchain hnot).length_le_of_subset hothers
  rw [hlength, length_erase_of_mem hino] at hfew
  have hpos := length_pos_of_mem hino
  omega

end Unchanged

theorem le_mul_windowSize (hmax : 1 ≤ maxFiles) (n : Nat) :
    n ≤ (n + maxFiles - 1) / maxFiles * windowSize maxFiles n := by
  obtain hsize | hsize : windowSize maxFiles n = n ∨ windowSize maxFiles n = maxFiles := by
    rw [windowSize]
    split_ifs <;> omega
  · obtain rfl | hpos := Nat.eq_zero_or_pos n
    · exact Nat.zero_le _
    · rw [hsize]
      exact Nat.le_mul_of_pos_left n (Nat.div_pos (by omega) hmax)
  · have hceil := Nat.div_add_mod' (n + maxFiles - 1) maxFiles
    have hmod := Nat.mod_lt (n + maxFiles - 1) hmax
    rw [hsize]
    omega

theorem scanCursor_add (i j : Nat) : scanCursor maxFiles cores cursor (i + j) =
      scanCursor maxFiles (fun j => cores (i + j)) (scanCursor maxFiles cores cursor i) j := by
  induction j with
  | zero => rfl
  | succ j ih => rw [← Nat.add_assoc, scanCursor, scanCursor, ih]

/-- **Incremental scans are fair.** The calls of a scan find the metadata `cores`. A window has no
inode twice. If the files stay the same, any `⌈files / maxFiles⌉` windows in a row have all of them.
And if they change, the visits `first :: rest` from one wrap to the next have every file that is
there in all calls. -/
theorem scan_fair (maxFiles : Nat) (hmax : 1 ≤ maxFiles) (cursor : Option InodeId)
    (cores : Nat → MetadataCore) :
    (∀ i, (scanWindow maxFiles cores cursor i).Nodup) ∧
    (∀ files, (∀ i, (cores i).fileInodes = files) → ∀ i, ∀ ino ∈ files,
      ∃ j < (files.length + maxFiles - 1) / maxFiles,
        ino ∈ scanWindow maxFiles cores cursor (i + j)) ∧
    ∀ n ino, (∀ i < n, ino ∈ (cores i).fileInodes) → ∀ before a first rest b after,
      visits maxFiles cores cursor n = before ++ a :: first :: (rest ++ b :: after) →
      first ≤ a → (first :: rest).Pairwise (· < ·) → b ≤ rest.getLastD first →
        ino ∈ first :: rest := by
  refine ⟨fun i => ?_, fun files hfiles i ino hino => ?_, ?_⟩
  · obtain ⟨as, bs, hfiles, hwindow, -⟩ := fileWindow_round hmax (cores i)
      (scanCursor maxFiles cores cursor i)
    have hnodup := (cores i).sorted_fileInodes.nodup
    rw [hfiles] at hnodup
    rw [scanWindow, hwindow]
    exact (nodup_append_comm.mp hnodup).sublist (take_sublist _ _)
  · have hvisited := mem_visits hmax (fun j => hfiles (i + j)) (scanCursor maxFiles cores cursor i)
      hino (le_mul_windowSize hmax _)
    obtain ⟨j, hj, hmem⟩ := mem_flatMap.mp hvisited
    refine ⟨j, mem_range.mp hj, ?_⟩
    rw [scanWindow] at hmem ⊢
    rwa [scanCursor_add]
  · intro n ino hino before a first rest b after hvisits hwrap hsorted hb
    have hchain := (isChain_visits cursor hmax n hino).1
    rw [hvisits] at hchain
    obtain ⟨hfirst, hchain⟩ := isChain_cons_cons.mp hchain.right_of_append
    have hle : first ≤ ino := by
      obtain ⟨hlt, -⟩ | ⟨-, hle, -⟩ := hfirst
      · exact absurd hlt hwrap.not_gt
      · exact hle
    have hsegment : (first :: (rest ++ [b])).IsChain (NoSkip ino) := by
      rw [append_cons, ← cons_append] at hchain
      exact hchain.left_of_append
    exact mem_between_wraps hsegment hsorted hb hle

/-- Between the calls of a scan a file appears, and then another disappears. -/
def changingCores : Nat → MetadataCore
  | 0 => listedCore [("a", 2), ("b", 3), ("c", 4)]
  | 1 => listedCore [("a", 2), ("b", 3), ("c", 4), ("d", 5)]
  | _ => listedCore [("a", 2), ("c", 4), ("d", 5)]

/-- Two files at a time. The visits between the two wraps have the files 2 and 4, which are there
all the time, and once the files stay the same any two windows have all of them. -/
theorem scan_fair_changing :
    visits 2 changingCores none 4 = [2, 3, 4, 5, 2, 4, 5, 2] ∧
    (∀ i < 4, 2 ∈ (changingCores i).fileInodes ∧ 4 ∈ (changingCores i).fileInodes) ∧
    (∀ ino, (∀ i < 4, ino ∈ (changingCores i).fileInodes) → ino ∈ [2, 4, 5]) ∧
    ∀ i, ∀ ino ∈ [2, 4, 5], ∃ j < 2,
      ino ∈ scanWindow 2 (fun i => changingCores (i + 2)) (some 5) (i + j) := by
  have hvisits : visits 2 changingCores none 4 = [2, 3, 4, 5, 2, 4, 5, 2] := by decide
  have hstays (i : Nat) : (changingCores (i + 2)).fileInodes = [2, 4, 5] := rfl
  refine ⟨hvisits, by decide, fun ino hthere => ?_, ?_⟩
  · exact (scan_fair 2 (by decide) none changingCores).2.2 4 ino hthere [2, 3, 4] 5 2 [4, 5] 2 []
      hvisits (by decide) (by decide) (by decide)
  · exact (scan_fair 2 (by decide) (some 5) _).2.1 _ hstays

end ArgosFs
