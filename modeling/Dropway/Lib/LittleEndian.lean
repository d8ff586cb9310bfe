import Mathlib.Tactic.Common
import Dropway.Lib.Utf8

/-! Numbers of a fixed width in bytes, the lowest byte first, and buffers that such
numbers are written into. -/

namespace Dropway.Lib.LittleEndian

def number : Bytes → Nat
  | [] => 0
  | byte :: rest => byte.toNat + 256 * number rest

/-- Bits beyond the width are dropped. -/
def write : Nat → Nat → Bytes
  | 0, _ => []
  | width + 1, value => UInt8.ofNat (value % 256) :: write width (value / 256)

/-- Bytes put over others in a buffer. -/
def overwrite (position : Nat) (part buffer : Bytes) : Bytes :=
  buffer.take position ++ part ++ buffer.drop (position + part.length)

/-- A call of `DataView.setUint16` or `setUint32`, the width in bytes. -/
structure SetUint where
  position : Nat
  width : Nat
  value : Nat

def setUints (view : Bytes) (calls : List SetUint) : Bytes :=
  calls.foldl (fun view call => overwrite call.position (write call.width call.value) view) view

/-- The number that stands at a position. -/
def field (bytes : Bytes) (position width : Nat) : Nat := number ((bytes.drop position).take width)

@[simp] theorem write_length (width value : Nat) : (write width value).length = width := by
  induction width generalizing value with
  | zero => rfl
  | succ width ih => rw [write, List.length_cons, ih]

theorem number_write (width value : Nat) : number (write width value) = value % 256 ^ width := by
  induction width generalizing value with
  | zero => exact (Nat.mod_one value).symm
  | succ width ih =>
    rw [write, number, ih, UInt8.toNat_ofNat', Nat.mod_mod_of_dvd _ (Nat.dvd_refl 256), Nat.pow_succ', Nat.mod_mul]

theorem number_write_of_lt {width value : Nat} (small : value < 256 ^ width) : number (write width value) = value := by
  rw [number_write, Nat.mod_eq_of_lt small]

theorem overwrite_append {front middle part back : Bytes} (fits : part.length = middle.length) :
    overwrite front.length part (front ++ (middle ++ back)) = front ++ part ++ back := by
  have rest : (front ++ (middle ++ back)).drop (front.length + part.length) = back := by
    rw [fits, ← List.append_assoc, ← List.length_append, List.drop_left]
  rw [overwrite, List.take_left, rest]

/-! ### Buffers -/

theorem overwrite_get {position : Nat} {part buffer : Bytes} (inside : position + part.length ≤ buffer.length) (i : Nat) :
    (overwrite position part buffer)[i]? =
      if position ≤ i ∧ i < position + part.length then part[i - position]? else buffer[i]? := by
  have front : (buffer.take position).length = position := by
    rw [List.length_take]
    omega
  have middle : (buffer.take position ++ part).length = position + part.length := by
    rw [List.length_append, front]
  unfold overwrite
  by_cases early : i < position
  · rw [List.getElem?_append_left (by omega), List.getElem?_append_left (by omega), List.getElem?_take_of_lt early,
      if_neg (by omega)]
  · by_cases within : i < position + part.length
    · rw [List.getElem?_append_left (by omega), List.getElem?_append_right (by omega), front, if_pos (by omega)]
    · rw [List.getElem?_append_right (by omega), middle, List.getElem?_drop, if_neg (by omega)]
      congr 1
      omega

theorem overwrite_length {position : Nat} {part buffer : Bytes} (inside : position + part.length ≤ buffer.length) :
    (overwrite position part buffer).length = buffer.length := by
  unfold overwrite
  rw [List.length_append, List.length_append, List.length_take, List.length_drop]
  omega

/-- A region that calls leave alone, or that one of them fills. -/
def Apart (region other : Nat × Nat) : Prop := region.1 + region.2 ≤ other.1 ∨ other.1 + other.2 ≤ region.1

instance (region other : Nat × Nat) : Decidable (Apart region other) := by
  unfold Apart
  infer_instance

def SetUint.region (call : SetUint) : Nat × Nat := (call.position, call.width)

variable {call : SetUint} {calls : List SetUint} {view : Bytes} {position width : Nat}

theorem field_other (inside : call.position + call.width ≤ view.length) (apart : Apart call.region (position, width)) :
    field (overwrite call.position (write call.width call.value) view) position width = field view position width := by
  have fits : call.position + (write call.width call.value).length ≤ view.length := by rwa [write_length]
  unfold field
  congr 1
  apply List.ext_getElem?
  intro i
  rw [List.getElem?_take, List.getElem?_take, List.getElem?_drop, List.getElem?_drop, overwrite_get fits, write_length]
  by_cases here : i < width
  · rw [if_pos here, if_pos here, if_neg]
    intro both
    rcases apart with before | behind
    · change call.position + call.width ≤ position at before
      omega
    · change position + width ≤ call.position at behind
      omega
  · rw [if_neg here, if_neg here]

theorem field_own (inside : call.position + call.width ≤ view.length) (small : call.value < 256 ^ call.width) :
    field (overwrite call.position (write call.width call.value) view) call.position call.width = call.value := by
  have front : (view.take call.position).length = call.position := by
    rw [List.length_take]
    omega
  have own : ((overwrite call.position (write call.width call.value) view).drop call.position).take call.width =
      write call.width call.value := by
    unfold overwrite
    rw [List.append_assoc, List.drop_left' front, List.take_left' (write_length ..)]
  rw [field, own, number_write_of_lt small]

theorem setUints_length (inside : ∀ call ∈ calls, call.position + call.width ≤ view.length) :
    (setUints view calls).length = view.length := by
  unfold setUints
  induction calls generalizing view with
  | nil => rfl
  | cons call calls ih =>
    obtain ⟨here, later⟩ := List.forall_mem_cons.mp inside
    have same : (overwrite call.position (write call.width call.value) view).length = view.length :=
      overwrite_length (by rwa [write_length])
    rw [List.foldl_cons, ih (by rwa [same]), same]

theorem field_setUints_other (inside : ∀ call ∈ calls, call.position + call.width ≤ view.length)
    (apart : ∀ call ∈ calls, Apart call.region (position, width)) :
    field (setUints view calls) position width = field view position width := by
  unfold setUints
  induction calls generalizing view with
  | nil => rfl
  | cons call calls ih =>
    obtain ⟨here, later⟩ := List.forall_mem_cons.mp inside
    obtain ⟨away, others⟩ := List.forall_mem_cons.mp apart
    have same : (overwrite call.position (write call.width call.value) view).length = view.length :=
      overwrite_length (by rwa [write_length])
    rw [List.foldl_cons, ih (by rwa [same]) others, field_other here away]

/-- Of calls on regions that are apart each is read back. -/
theorem field_setUints (inside : ∀ call ∈ calls, call.position + call.width ≤ view.length)
    (apart : (calls.map SetUint.region).Pairwise Apart) {call : SetUint} (mem : call ∈ calls) (small : call.value < 256 ^ call.width) :
    field (setUints view calls) call.position call.width = call.value := by
  induction calls generalizing view with
  | nil => cases mem
  | cons first calls ih =>
    obtain ⟨here, later⟩ := List.forall_mem_cons.mp inside
    obtain ⟨away, others⟩ := List.pairwise_cons.mp apart
    have same : (overwrite first.position (write first.width first.value) view).length = view.length :=
      overwrite_length (by rwa [write_length])
    change field (setUints (overwrite first.position (write first.width first.value) view) calls) _ _ = _
    rcases List.mem_cons.mp mem with rfl | mem
    · rw [field_setUints_other (by rwa [same]) fun other there => (away _ (List.mem_map_of_mem there)).symm,
        field_own here small]
    · exact ih (by rwa [same]) others mem

theorem field_zeros (size position width : Nat) : field (List.replicate size 0) position width = 0 := by
  unfold field
  rw [List.drop_replicate, List.take_replicate]
  generalize min width (size - position) = n
  induction n with
  | zero => rfl
  | succ n ih =>
    rw [List.replicate_succ, number, ih]
    rfl

/-- Calls on regions of a buffer of zeros. -/
structure Filling (size : Nat) (calls : List SetUint) : Prop where
  inside : ∀ region ∈ calls.map SetUint.region, region.1 + region.2 ≤ size
  apart : (calls.map SetUint.region).Pairwise Apart

variable {size : Nat}

theorem Filling.within (filling : Filling size calls) :
    ∀ call ∈ calls, call.position + call.width ≤ (List.replicate size (0 : UInt8)).length := by
  intro call mem
  rw [List.length_replicate]
  exact filling.inside call.region (List.mem_map_of_mem mem)

theorem Filling.length (filling : Filling size calls) : (setUints (List.replicate size 0) calls).length = size := by
  rw [setUints_length filling.within, List.length_replicate]

theorem Filling.field (filling : Filling size calls) (i : Nat) {position width value : Nat}
    (here : calls[i]? = some ⟨position, width, value⟩) (small : value < 256 ^ width) :
    field (setUints (List.replicate size 0) calls) position width = value :=
  field_setUints filling.within filling.apart (List.mem_of_getElem? here) small

theorem Filling.zero (filling : Filling size calls) {position width : Nat}
    (apart : ∀ region ∈ calls.map SetUint.region, Apart region (position, width)) :
    LittleEndian.field (setUints (List.replicate size 0) calls) position width = 0 := by
  rw [field_setUints_other filling.within fun call mem => apart call.region (List.mem_map_of_mem mem), field_zeros]

end Dropway.Lib.LittleEndian
