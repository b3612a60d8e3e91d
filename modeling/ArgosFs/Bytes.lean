import Mathlib.Data.Set.Function
import Mathlib.Order.Interval.Set.Basic
import Mathlib.Tactic.Ring

/-!
# Bytes on a device

A device as a map from offsets to bytes, with reads and writes of byte strings and the frame rules
between them: a read sees the write it lies in, and none that it is disjoint from. Little-endian
integers and tables of entries of one length complete what an on-disk format needs.

Writes go through a volatile cache. A power failure leaves of every byte either what was last
flushed or what was written since, so a write in progress may be torn anywhere.
-/

namespace ArgosFs

open List

variable {s : Set Nat} {n i : Nat}

/-- A byte string. -/
abbrev Bytes := List UInt8

/-- The bytes of a device, by offset. -/
abbrev Region := Nat → UInt8

namespace Region

/-- The `length` bytes from `offset` on. -/
def read (r : Region) (offset length : Nat) : Bytes :=
  (List.range length).map fun i => r (offset + i)

/-- Replace the bytes from `offset` on. -/
def write (r : Region) (offset : Nat) (data : Bytes) : Region := fun b =>
  if offset ≤ b ∧ b < offset + data.length then data.getD (b - offset) 0 else r b

variable {r r' : Region} {offset length : Nat} {data : Bytes}

@[simp] theorem length_read : (r.read offset length).length = length := by simp [read]

theorem read_congr (h : Set.EqOn r r' (Set.Ico offset (offset + length))) :
    r.read offset length = r'.read offset length := by
  refine map_congr_left fun i hi => h ⟨Nat.le_add_right _ _, ?_⟩
  have := mem_range.mp hi
  omega

theorem take_drop_read (h : i + n ≤ length) :
    ((r.read offset length).drop i).take n = r.read (offset + i) n := by
  refine ext_getElem (by simp; omega) fun j _ _ => ?_
  simp [read, Nat.add_assoc]

/-- **Frame rule**: a write is not seen outside its range. -/
theorem write_of_outside {b : Nat} (h : b < offset ∨ offset + data.length ≤ b) :
    r.write offset data b = r b := if_neg (by omega)

theorem read_write_within (h : i + n ≤ data.length) :
    (r.write offset data).read (offset + i) n = (data.drop i).take n := by
  refine ext_getElem (by simp; omega) fun j hj _ => ?_
  have hj : j < n := by simpa using hj
  have hlt : i + j < data.length := by omega
  simp only [read, getElem_map, getElem_range, write, getElem_take, getElem_drop]
  rw [if_pos (by omega), show offset + i + j - offset = i + j by omega]
  simp [hlt]

theorem read_write_self (h : data.length = n) : (r.write offset data).read offset n = data := by
  subst h
  have hread : (r.write offset data).read (offset + 0) data.length = _ :=
    read_write_within (Nat.le_of_eq (Nat.zero_add _))
  rwa [Nat.add_zero, drop_zero, take_length] at hread

theorem read_write_of_disjoint {o : Nat} (h : o + n ≤ offset ∨ offset + data.length ≤ o) :
    (r.write offset data).read o n = r.read o n := by
  refine read_congr ?_
  rintro b ⟨hlo, hhi⟩
  exact write_of_outside (by omega)

end Region

/-- Each byte of `bytes` is the byte of one of two byte strings at its place. -/
def Mixed (old new bytes : Bytes) : Prop :=
  bytes.length = old.length ∧ ∀ i < bytes.length, bytes[i]? = old[i]? ∨ bytes[i]? = new[i]?

theorem Region.mixed_read {r r' image : Region} {offset length : Nat}
    (h : ∀ b, image b = r b ∨ image b = r' b) :
    Mixed (r.read offset length) (r'.read offset length) (image.read offset length) := by
  refine ⟨by simp, fun i hi => ?_⟩
  have hi : i < length := by simpa using hi
  simpa [Region.read, hi] using h (offset + i)

/-! ## Little-endian integers -/

/-- The low `width` bytes of a number, lowest first. -/
def toLittleEndian : Nat → Nat → Bytes
  | 0, _ => []
  | width + 1, n => UInt8.ofNat n :: toLittleEndian width (n / 256)

def fromLittleEndian : Bytes → Nat
  | [] => 0
  | b :: rest => b.toNat + 256 * fromLittleEndian rest

@[simp] theorem length_toLittleEndian (width n : Nat) :
    (toLittleEndian width n).length = width := by
  induction width generalizing n with
  | zero => rfl
  | succ width ih => simp [toLittleEndian, ih]

theorem fromLittleEndian_toLittleEndian {width : Nat} (h : n < 256 ^ width) :
    fromLittleEndian (toLittleEndian width n) = n := by
  induction width generalizing n with
  | zero =>
    simp only [pow_zero, Nat.lt_one_iff] at h
    simp [toLittleEndian, fromLittleEndian, h]
  | succ width ih =>
    have hrest : n / 256 < 256 ^ width := by
      rw [Nat.div_lt_iff_lt_mul (by decide)]
      rwa [pow_succ] at h
    simp only [toLittleEndian, fromLittleEndian, ih hrest]
    rw [UInt8.toNat_ofNat']
    omega

theorem fromLittleEndian_lt (bytes : Bytes) : fromLittleEndian bytes < 256 ^ bytes.length := by
  induction bytes with
  | nil => exact Nat.one_pos
  | cons b rest ih =>
    have hb : b.toNat < 256 := b.toNat_lt
    rw [fromLittleEndian, length_cons, pow_succ]
    omega

/-! ## Tables of entries of one length -/

section Tables

variable {α : Type} {entry : Nat → List α} {k : Nat}

theorem length_flatMap_range (h : ∀ i < n, (entry i).length = k) :
    ((List.range n).flatMap entry).length = n * k := by
  induction n with
  | zero => simp
  | succ n ih =>
    rw [range_succ, flatMap_append, length_append, ih fun i hi => h i (by omega)]
    simp only [flatMap_cons, flatMap_nil, append_nil, h n (Nat.lt_succ_self n)]
    ring

theorem take_drop_flatMap_range (h : ∀ i < n, (entry i).length = k) (hi : i < n) :
    (((List.range n).flatMap entry).drop (i * k)).take k = entry i := by
  obtain ⟨rest, rfl⟩ : ∃ rest, n = i + (rest + 1) := ⟨n - i - 1, by omega⟩
  have hlen : ((List.range i).flatMap entry).length = i * k :=
    length_flatMap_range fun j hj => h j (by omega)
  rw [range_add, flatMap_append, ← hlen, drop_left, range_succ_eq_map]
  simp only [map_cons, flatMap_cons, Nat.add_zero]
  rw [← h i hi, take_left]

theorem flatMap_range_pieces (l : List α) (n : Nat) :
    ((List.range n).flatMap fun i => (l.drop (i * k)).take k) = l.take (n * k) := by
  induction n with
  | zero => simp
  | succ n ih =>
    rw [range_succ, flatMap_append, ih, Nat.succ_mul, take_add]
    simp

end Tables

/-! ## Volatile writes -/

/-- A request to a device. -/
inductive ByteRequest where
  | write (offset : Nat) (data : Bytes)
  | flush

/-- A device with a volatile cache: what was last flushed, and what reads see. -/
structure ByteDevice where
  flushed : Region
  cache : Region

namespace ByteDevice

/-- A device after reopening: nothing is pending. -/
def opened (r : Region) : ByteDevice := ⟨r, r⟩

def step (d : ByteDevice) : ByteRequest → ByteDevice
  | .write offset data => ⟨d.flushed, d.cache.write offset data⟩
  | .flush => ⟨d.cache, d.cache⟩

def run (requests : List ByteRequest) (d : ByteDevice) : ByteDevice := requests.foldl step d

/-- What a power failure can leave: of each byte, the flushed value or the cached one. -/
def Leaves (d : ByteDevice) (image : Region) : Prop :=
  ∀ b, image b = d.flushed b ∨ image b = d.cache b

variable {d : ByteDevice} {requests requests' : List ByteRequest} {image : Region}

theorem run_append : run (requests ++ requests') d = run requests' (run requests d) :=
  foldl_append

theorem leaves_cache : d.Leaves d.cache := fun _ => Or.inr rfl

/-- No request writes into `s`. -/
def Avoids (s : Set Nat) (requests : List ByteRequest) : Prop :=
  ∀ offset data, ByteRequest.write offset data ∈ requests →
    ∀ b ∈ s, b < offset ∨ offset + data.length ≤ b

theorem Avoids.of_append_left (h : Avoids s (requests ++ requests')) :
    Avoids s requests := fun offset data hmem => h offset data (mem_append_left _ hmem)

theorem Avoids.of_cons {request : ByteRequest} (h : Avoids s (request :: requests)) :
    Avoids s requests := fun offset data hmem => h offset data (mem_cons_of_mem _ hmem)

theorem step_cache_frame {request : ByteRequest} (h : Avoids s (request :: requests)) :
    Set.EqOn (d.step request).cache d.cache s := by
  cases request with
  | flush => exact fun _ _ => rfl
  | write offset data =>
    exact fun b hb => Region.write_of_outside (h offset data mem_cons_self b hb)

/-- **Requests that avoid a part of the device leave it alone.** -/
theorem run_cache_frame (h : Avoids s requests) : Set.EqOn (run requests d).cache d.cache s := by
  induction requests generalizing d with
  | nil => exact fun _ _ => rfl
  | cons request rest ih =>
    exact fun b hb => (ih (d := d.step request) h.of_cons hb).trans (step_cache_frame h hb)

theorem run_flushed_frame (h : Avoids s requests) (hd : Set.EqOn d.flushed d.cache s) :
    Set.EqOn (run requests d).flushed d.cache s := by
  induction requests generalizing d with
  | nil => exact hd
  | cons request rest ih =>
    have hcache := step_cache_frame (d := d) h
    have hstep : Set.EqOn (d.step request).flushed (d.step request).cache s := by
      cases request with
      | flush => exact fun _ _ => rfl
      | write => exact fun b hb => (hd hb).trans (hcache hb).symm
    exact fun b hb => (ih h.of_cons hstep hb).trans (hcache hb)

theorem leaves_frame {r : Region} (h : Avoids s requests)
    (hleaves : (run requests (opened r)).Leaves image) : Set.EqOn image r s := by
  intro b hb
  rcases hleaves b with heq | heq
  · exact heq.trans (run_flushed_frame (d := opened r) h (fun _ _ => rfl) hb)
  · exact heq.trans (run_cache_frame (d := opened r) h hb)

theorem run_flushed_of_no_flush (h : ByteRequest.flush ∉ requests) :
    (run requests d).flushed = d.flushed := by
  induction requests generalizing d with
  | nil => rfl
  | cons request rest ih =>
    rw [mem_cons, not_or] at h
    refine (ih (d := d.step request) h.2).trans ?_
    cases request with
    | write => rfl
    | flush => exact absurd rfl h.1

/-- The two requests do not write the same byte. -/
def Apart : ByteRequest → ByteRequest → Prop
  | .write offset data, .write offset' data' =>
    offset + data.length ≤ offset' ∨ offset' + data'.length ≤ offset
  | _, _ => True

theorem avoids_of_apart (h : (requests ++ requests').Pairwise Apart) (b : Nat) :
    Avoids {b} requests ∨ Avoids {b} requests' := by
  by_contra hboth
  simp only [Avoids, not_or, not_forall, Set.mem_singleton_iff] at hboth
  obtain ⟨⟨offset, data, hmem, _, rfl, hin⟩, offset', data', hmem', _, rfl, hin'⟩ := hboth
  have hapart : offset + data.length ≤ offset' ∨ offset' + data'.length ≤ offset :=
    (pairwise_append.mp h).2.2 _ hmem _ hmem'
  omega

/-- **Requests cut short before a flush**: if no byte is written twice, a power failure leaves of
each byte what was there or what is there in the end. -/
theorem leaves_of_apart {r : Region} (hflush : ByteRequest.flush ∉ requests)
    (hapart : (requests ++ requests').Pairwise Apart)
    (hleaves : (run requests (opened r)).Leaves image) (b : Nat) :
    image b = r b ∨ image b = (run (requests ++ requests') (opened r)).cache b := by
  obtain hold | hnew := hleaves b
  · rw [run_flushed_of_no_flush hflush] at hold
    exact Or.inl hold
  · obtain hissued | hrest := avoids_of_apart hapart b
    · exact Or.inl (hnew.trans (run_cache_frame (d := opened r) hissued rfl))
    · rw [run_append]
      exact Or.inr (hnew.trans (run_cache_frame hrest rfl).symm)

end ByteDevice

end ArgosFs
