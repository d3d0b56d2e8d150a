import QCircuit.Proofs.Register.Action
/-! Execution inside the buffers.

A pass writes slots without asking whether they exist, and takes masks of qubits without asking
whether the register has them. Here the engine is written once more with both questions asked: it
ends with `none` at the first slot outside its buffer, at the first mask of a qubit that the register
does not have, and before a pass over buffers of another length than the width says. It never ends
like this and does what the engine does, on every register that calls have led to. -/
namespace QCircuit

/-- The mask of a qubit, if the register has it. -/
def Qubit.maskWithin (width : Nat) (q : Qubit) : Option Nat :=
  if 1 ≤ q.number ∧ q.number ≤ width then some q.mask else none

def Controls.maskWithin (width : Nat) (controls : Controls) : Option Nat :=
  controls.qubits.foldlM (fun m q => (q.maskWithin width).map (m ||| ·)) 0

namespace Register
variable {R : Type} [Scalar R]

def addWithin (buffer : Array (Complex R)) (n : Nat) (z : Complex R) :
    Option (Array (Complex R)) :=
  if n < buffer.size then some (addAt buffer n z) else none

def setWithin (buffer : Array (Complex R)) (n : Nat) (z : Complex R) :
    Option (Array (Complex R)) :=
  if n < buffer.size then some (buffer.setIfInBounds n z) else none

-- The other slot of a pair is that with the target set or that with the target cleared.
def scatterWithin (m : Matrix2 R) (target controls : Nat) (buffer : Array (Complex R))
    (n : Nat) (z : Complex R) : Option (Array (Complex R)) :=
  if n &&& controls != controls then addWithin buffer n z
  else if n &&& target == 0 then do
    let added ← addWithin buffer n (m.a00.mul z)
    addWithin added (n ||| target) (m.a10.mul z)
  else do
    let added ← addWithin buffer n (m.a11.mul z)
    addWithin added (n.ldiff target) (m.a01.mul z)

def matrixPassWithin (m : Matrix2 R) (target : Qubit) (controls : Controls) (r : Register R) :
    Option (Register R) := do
  let targetMask ← target.maskWithin r.numQubits
  let controlMask ← controls.maskWithin r.numQubits
  let cleared := r.scratch.map fun _ => Complex.zero
  let filled ← r.amplitudes.zipIdx.foldlM
    (fun buffer (z, n) => scatterWithin m targetMask controlMask buffer n z) cleared
  some { r with amplitudes := filled, scratch := r.amplitudes }

def swapStepWithin (first second controls : Nat) (buffer : Array (Complex R)) (n : Nat)
    (z : Complex R) : Option (Array (Complex R)) :=
  if n &&& controls == controls && (n &&& first != 0) != (n &&& second != 0) then
    setWithin buffer (n ^^^ (first ||| second)) z
  else setWithin buffer n z

def swapPassWithin (a b : Qubit) (controls : Controls) (r : Register R) : Option (Register R) := do
  let first ← a.maskWithin r.numQubits
  let second ← b.maskWithin r.numQubits
  let controlMask ← controls.maskWithin r.numQubits
  let filled ← r.amplitudes.zipIdx.foldlM
    (fun buffer (z, n) => swapStepWithin first second controlMask buffer n z) r.scratch
  some { r with amplitudes := filled, scratch := r.amplitudes }

def applyOperationWithin (op : Operation R) (r : Register R) : Option (Register R) :=
  if r.amplitudes.size = 1 <<< r.numQubits ∧ r.scratch.size = 1 <<< r.numQubits then
    match op.gate.partner? with
    | some partner => r.swapPassWithin op.target partner op.controls
    | none =>
      match op.gate.matrix? with
      | some m => r.matrixPassWithin m op.target op.controls
      | none => some r
  else none

mutual

def performWithin : Gate R → Register R → Option (Register R)
  | .standard op, r => r.applyOperationWithin op
  | .composite _ members, r => performAllWithin members r

def performAllWithin : List (Gate R) → Register R → Option (Register R)
  | [], r => some r
  | g :: rest, r => do
    let next ← performWithin g r
    performAllWithin rest next

end

def applyWithin (g : Gate R) (r : Register R) : Option (Except RegisterError (Register R)) :=
  match g.validate r.numQubits with
  | .ok () => (performWithin g r).map .ok
  | .error e => some (.error (.gateRejected e))

def runWithin : List (Gate R) → Register R → Option (Register R × Option RegisterError)
  | [], r => some (r, none)
  | g :: rest, r => do
    match ← r.applyWithin g with
    | .ok next => runWithin rest next
    | .error e => some (r, some e)

/-! ### The guards hold -/

/-- A fold whose steps are all possible, because of what the steps before them keep. -/
theorem foldlM_eq_some {α β : Type} {guarded : β → α → Option β} {step : β → α → β}
    (kept : β → Prop) {items : List α} {start : β} (initially : kept start)
    (possible : ∀ item ∈ items, ∀ b, kept b →
      guarded b item = some (step b item) ∧ kept (step b item)) :
    items.foldlM guarded start = some (items.foldl step start) := by
  induction items generalizing start with
  | nil => rfl
  | cons item rest ih =>
      rw [List.forall_mem_cons] at possible
      obtain ⟨stepped, next⟩ := possible.1 start initially
      rw [List.foldlM_cons, stepped, List.foldl_cons]
      exact ih next possible.2

theorem foldlM_zipIdx_eq_some {α β : Type} (values : Array α) (guarded : β → α × Nat → Option β)
    (step : β → α × Nat → β) (kept : β → Prop) (start : β) (initially : kept start)
    (possible : ∀ value, ∀ index < values.size, ∀ b, kept b →
      guarded b (value, index) = some (step b (value, index)) ∧ kept (step b (value, index))) :
    values.zipIdx.foldlM guarded start = some (values.zipIdx.foldl step start) := by
  rw [← Array.foldlM_toList, ← Array.foldl_toList, Array.toList_zipIdx]
  refine foldlM_eq_some kept initially fun item inside b held => ?_
  have below : item.2 < values.size := by simpa using List.snd_lt_of_mem_zipIdx inside
  exact possible item.1 item.2 below b held

end Register

namespace Operation.Fits
variable {R : Type} {op : Operation R} {width : Nat}

theorem maskWithin (fits : op.Fits width) {q : Qubit} (active : q ∈ op.active) :
    q.maskWithin width = some q.mask := if_pos (fits.inRange q (List.mem_append_left _ active))

theorem controls_maskWithin (fits : op.Fits width) :
    op.controls.maskWithin width = some op.controls.mask := by
  refine Register.foldlM_eq_some (fun _ => True) trivial fun q control m _ => ⟨?_, trivial⟩
  rw [Qubit.maskWithin, if_pos (fits.inRange q (List.mem_append_right _ control)), Option.map_some]

end Operation.Fits

-- Where the bits of a mask are set, clearing them is turning them over.
theorem Qubit.ldiff_mask {q : Qubit} {index : Nat} (set : q.isSet index = true) :
    index.ldiff q.mask = index ^^^ q.mask := by
  apply Nat.eq_of_testBit_eq
  intro i
  rw [Nat.testBit_ldiff, Nat.testBit_xor, testBit_mask]
  by_cases own : q.bit = i
  · rw [isSet, own] at set
    simp [own, set]
  · simp [own]

namespace Register

section Swap
variable {R : Type}

theorem setWithin_eq {buffer : Array (Complex R)} {n : Nat} (inside : n < buffer.size)
    (z : Complex R) : setWithin buffer n z = some (buffer.setIfInBounds n z) := if_pos inside

theorem swapStepWithin_eq {a b : Qubit} {width : Nat} (inside : a.bit < width)
    (inside' : b.bit < width) (controls : Controls) {buffer : Array (Complex R)}
    (size : buffer.size = 1 <<< width) {n : Nat} (below : n < 1 <<< width) (z : Complex R) :
    swapStepWithin a.mask b.mask controls.mask buffer n z =
      some (buffer.setIfInBounds (swapIndex a b controls.mask n) z) := by
  have slot := swapIndex_lt inside inside' below controls
  rw [← size] at below slot
  unfold swapIndex at slot
  unfold swapStepWithin swapIndex
  simp only [bne, Qubit.and_mask_eq_zero, Bool.not_not] at slot ⊢
  split_ifs at slot ⊢
  · exact setWithin_eq slot z
  · exact setWithin_eq below z

theorem swapPassWithin_eq {r : Register R} (sized : r.Sized) {op : Operation R}
    (fits : op.Fits r.numQubits) {partner : Qubit} (named : op.gate.partner? = some partner) :
    r.swapPassWithin op.target partner op.controls =
      some (r.swapPass op.target partner op.controls) := by
  have active := Operation.mem_active_of_partner named
  have filled := foldlM_zipIdx_eq_some r.amplitudes
    (fun buffer (z, n) => swapStepWithin op.target.mask partner.mask op.controls.mask buffer n z)
    (fun buffer (z, n) =>
      buffer.setIfInBounds (swapIndex op.target partner op.controls.mask n) z)
    (fun buffer => buffer.size = 1 <<< r.numQubits) r.scratch sized.scratch
    (by
      intro z n below buffer size
      rw [sized.amplitudes] at below
      exact ⟨swapStepWithin_eq fits.target_bit_lt (fits.active_bit_lt active) op.controls size below z,
        by rw [Array.size_setIfInBounds, size]⟩)
  simp only [swapPassWithin, fits.maskWithin List.mem_cons_self, fits.maskWithin active,
    fits.controls_maskWithin, filled, bind, Option.bind]
  rfl

end Swap

variable {R : Type} [Scalar R]

theorem addWithin_eq {buffer : Array (Complex R)} {n : Nat} (inside : n < buffer.size)
    (z : Complex R) : addWithin buffer n z = some (addAt buffer n z) := if_pos inside

theorem scatterWithin_eq (m : Matrix2 R) {target : Qubit} {width : Nat}
    (inside : target.bit < width) (controls : Nat) {buffer : Array (Complex R)}
    (size : buffer.size = 1 <<< width) {n : Nat} (below : n < 1 <<< width) (z : Complex R) :
    scatterWithin m target.mask controls buffer n z =
      some (scatter m target.mask controls buffer n z) := by
  have slot : n < buffer.size := by rwa [size]
  unfold scatterWithin scatter
  split_ifs with unmet clear
  · exact addWithin_eq slot z
  · have high : n ||| target.mask < (addAt buffer n (m.a00.mul z)).size := by
      rw [addAt_size, size, ← Qubit.withBit_true]
      exact Qubit.withBit_lt inside below true
    simp only [addWithin_eq slot, addWithin_eq high, bind, Option.bind]
  · have set : target.isSet n = true := by
      rw [Qubit.and_mask_eq_zero] at clear
      simpa using clear
    have flipped : n ^^^ target.mask = target.withBit false n := by
      rw [Qubit.withBit, if_neg (by simp [set])]
    have low : n ^^^ target.mask < (addAt buffer n (m.a11.mul z)).size := by
      rw [addAt_size, size, flipped]
      exact Qubit.withBit_lt inside below false
    simp only [Qubit.ldiff_mask set, addWithin_eq slot, addWithin_eq low, bind, Option.bind]

theorem matrixPassWithin_eq {r : Register R} (sized : r.Sized) (m : Matrix2 R) {op : Operation R}
    (fits : op.Fits r.numQubits) :
    r.matrixPassWithin m op.target op.controls = some (r.matrixPass m op.target op.controls) := by
  have filled := foldlM_zipIdx_eq_some r.amplitudes
    (fun buffer (z, n) => scatterWithin m op.target.mask op.controls.mask buffer n z)
    (fun buffer (z, n) => scatter m op.target.mask op.controls.mask buffer n z)
    (fun buffer => buffer.size = 1 <<< r.numQubits) (r.scratch.map fun _ => Complex.zero)
    (by rw [Array.size_map, sized.scratch])
    (by
      intro z n below buffer size
      rw [sized.amplitudes] at below
      exact ⟨scatterWithin_eq m fits.target_bit_lt op.controls.mask size below z,
        (scatter_size m _ _ buffer n z).trans size⟩)
  simp only [matrixPassWithin, fits.maskWithin List.mem_cons_self, fits.controls_maskWithin,
    filled, bind, Option.bind]
  rfl

theorem applyOperationWithin_eq {r : Register R} (sized : r.Sized) {op : Operation R}
    (fits : op.Fits r.numQubits) : r.applyOperationWithin op = some (r.applyOperation op) := by
  unfold applyOperationWithin applyOperation
  rw [if_pos ⟨sized.amplitudes, sized.scratch⟩]
  cases named : op.gate.partner? with
  | some partner => exact swapPassWithin_eq sized fits named
  | none =>
      cases op.gate.matrix? with
      | some m => exact matrixPassWithin_eq sized m fits
      | none => rfl

mutual

theorem performWithin_eq {r : Register R} (sized : r.Sized) : ∀ g : Gate R,
    (∀ op ∈ g.leaves, op.Fits r.numQubits) → performWithin g r = some (perform g r)
  | .standard op, fit => by
      rw [performWithin, perform]
      exact applyOperationWithin_eq sized (fit op List.mem_cons_self)
  | .composite _ members, fit => by
      rw [performWithin, perform]
      exact performAllWithin_eq sized members fit

theorem performAllWithin_eq {r : Register R} (sized : r.Sized) : ∀ gates : List (Gate R),
    (∀ op ∈ Gate.leavesOf gates, op.Fits r.numQubits) →
      performAllWithin gates r = some (performAll gates r)
  | [], _ => by rw [performAllWithin, performAll]
  | g :: rest, fit => by
      rw [Gate.leavesOf] at fit
      have first := performWithin_eq sized g fun op leaf => fit op (List.mem_append_left _ leaf)
      have later := performAllWithin_eq (perform_sized sized g) rest fun op leaf => by
        rw [perform_numQubits]
        exact fit op (List.mem_append_right _ leaf)
      rw [performAllWithin, performAll, first]
      exact later

end

theorem applyWithin_eq {r : Register R} (sized : r.Sized) (g : Gate R) :
    r.applyWithin g = some (r.apply g) := by
  unfold applyWithin apply
  cases checked : g.validate r.numQubits with
  | error e => rfl
  | ok =>
      have fit := (g.validate_ok_iff r.numQubits).mp checked
      simp only [performWithin_eq sized g fit, Option.map_some]

theorem runWithin_eq {r : Register R} (sized : r.Sized) (gates : List (Gate R)) :
    runWithin gates r = some (run gates r) := by
  induction gates generalizing r with
  | nil => rw [runWithin, run]
  | cons g rest ih =>
      rw [runWithin, run, applyWithin_eq sized g]
      cases applied : r.apply g with
      | error e => rfl
      | ok next => exact ih (apply_keeps sized applied).1

/-! ### Sequences of calls -/

/-- What may be asked of a register. -/
inductive Call (R : Type) where
  | apply (g : Gate R)
  | run (gates : List (Gate R))

/-- The register after a call, and the error if the call is refused. -/
def call (r : Register R) : Call R → Register R × Option RegisterError
  | .apply g =>
    match r.apply g with
    | .ok next => (next, none)
    | .error e => (r, some e)
  | .run gates => run gates r

def callWithin (r : Register R) : Call R → Option (Register R × Option RegisterError)
  | .apply g => do
    match ← r.applyWithin g with
    | .ok next => some (next, none)
    | .error e => some (r, some e)
  | .run gates => runWithin gates r

def after (calls : List (Call R)) (r : Register R) : Register R :=
  calls.foldl (fun s c => (s.call c).1) r

theorem call_keeps {r : Register R} (sized : r.Sized) (c : Call R) :
    (r.call c).1.Sized ∧ (r.call c).1.numQubits = r.numQubits := by
  cases c with
  | apply g =>
      rw [call]
      cases applied : r.apply g with
      | error e => exact ⟨sized, rfl⟩
      | ok next => exact apply_keeps sized applied
  | run gates => exact run_keeps sized gates

theorem callWithin_eq {r : Register R} (sized : r.Sized) (c : Call R) :
    r.callWithin c = some (r.call c) := by
  cases c with
  | apply g =>
      rw [callWithin, call, applyWithin_eq sized g]
      cases r.apply g <;> rfl
  | run gates => exact runWithin_eq sized gates

theorem after_keeps {r : Register R} (sized : r.Sized) (calls : List (Call R)) :
    (after calls r).Sized ∧ (after calls r).numQubits = r.numQubits := by
  induction calls generalizing r with
  | nil => exact ⟨sized, rfl⟩
  | cons c rest ih =>
      obtain ⟨sized', width⟩ := call_keeps sized c
      obtain ⟨last, width'⟩ := ih sized'
      exact ⟨last, width'.trans width⟩

end Register

theorem Qubit.mask_lt {q : Qubit} {width : Nat} (inside : q.bit < width) :
    q.mask < 1 <<< width := by
  rw [mask, Nat.one_shiftLeft, Nat.one_shiftLeft]
  exact Nat.pow_lt_pow_right (by decide) inside

namespace Register
variable {R : Type} [Scalar R]

/-- Whatever has been asked of a register, both of its buffers still have the length that its width
says, and the width is that with which it was built. The next call takes only masks of qubits that
the register has and reads and writes only slots of the buffers. To take the mask of such a qubit,
one is subtracted from a number that is not zero and shifted by less than the number of bits of any
word that holds the length of a buffer. -/
theorem calls_stay_inside (r : Register R)
    (built : (∃ width, make width = .ok r) ∨ ∃ amplitudes, ofAmplitudes amplitudes = .ok r)
    (calls : List (Call R)) :
    (after calls r).numQubits = r.numQubits ∧
      (after calls r).amplitudes.size = 1 <<< r.numQubits ∧
      (after calls r).scratch.size = 1 <<< r.numQubits ∧
      (∀ c, (after calls r).callWithin c = some ((after calls r).call c)) ∧
      ∀ q : Qubit, 1 ≤ q.number → q.number ≤ r.numQubits →
        q.bit + 1 = q.number ∧ q.mask < (after calls r).amplitudes.size ∧
          ∀ bits, (after calls r).amplitudes.size ≤ 1 <<< bits → q.bit < bits := by
  have sized : r.Sized := by
    rcases built with ⟨width, made⟩ | ⟨amplitudes, made⟩
    · exact make_sized made
    · exact ofAmplitudes_sized made
  obtain ⟨sized', width⟩ := after_keeps sized calls
  have length := sized'.amplitudes
  have length' := sized'.scratch
  rw [width] at length length'
  refine ⟨width, length, length', callWithin_eq sized', fun q low high => ?_⟩
  have bit : q.bit + 1 = q.number := Nat.sub_add_cancel low
  have inside := Qubit.mask_lt (show q.bit < r.numQubits by omega)
  rw [length]
  refine ⟨bit, inside, fun bits fits => ?_⟩
  have below := inside.trans_le fits
  rw [Qubit.mask, Nat.one_shiftLeft, Nat.one_shiftLeft] at below
  exact (Nat.pow_lt_pow_iff_right (by decide)).mp below

-- Two refused calls, one of them in the middle of a run, and a controlled flip behind them.
theorem calls_stay_inside_after_refusals :
    let flip (q : Nat) (controls : List Qubit) : Gate Float := .standard ⟨.x, ⟨q⟩, ⟨controls⟩⟩
    let r : Register Float := .ground 2
    let calls : List (Call Float) :=
      [.run [flip 1 [], .composite "a" [flip 2 [], flip 3 []]],
        .apply (.standard ⟨.swap ⟨2⟩, ⟨0⟩, .none⟩)]
    make 2 = .ok r ∧ (after calls r).scratch.size = 4 ∧
      (after calls r).callWithin (.run [flip 2 [⟨1⟩]]) =
        some ((after calls r).call (.run [flip 2 [⟨1⟩]])) := by
  intro flip r calls
  have made : make 2 = .ok r := rfl
  obtain ⟨-, -, scratch, safe, -⟩ := calls_stay_inside r (.inl ⟨2, made⟩) calls
  exact ⟨made, scratch, safe _⟩

end Register
end QCircuit
