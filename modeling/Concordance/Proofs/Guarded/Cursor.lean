import Concordance.Blob
import Concordance.Proofs.Reader.Steady

/-!
# Reading With Every Step Guarded

A second account of the reads, in which each slice and each sum of places may go wrong.

A reader keeps the bytes that are left, so there is nothing in it that could point outside. A
program on a machine keeps the bytes of the whole entry and a place in them, and whenever it
takes a slice from that place, or moves it on, it relies on the place being right. `Cursor` is
such a place. Its reads are written as a machine would do them, and every slice and every
addition is guarded: what would bring a machine down is `Error.fault` here.

That no guard is ever hit cannot be seen from one read alone. A read leaves the cursor inside
the entry, and the next one takes its slices from there, so it is the whole chain of reads that
has to be followed. `Mirrors` does this by holding on to the reader. Where the cursor is inside,
the reader that has the same bytes left does the same: both have the same value and move on to
the same place, inside again, or both tell of the same corruption. Chains of reads mirror chains
of reads (`Mirrors.andThen`), and so nothing has to be proved twice for them.

What has no place in it is not written again. Eight bytes make a number and bytes make a text in
the same way here as there.

## Main definitions

* `Guarded.part`, `Guarded.difference`: A slice and a difference, guarded.
* `Guarded.Safe`: A guarded computation that comes to what another one does, without a fault.
* `Guarded.Cursor`, `Guarded.Read`: A place in the bytes of an entry, and reads from there.
* `Guarded.loop`: Reading the same over and over.
* `Guarded.Agree`, `Guarded.Mirrors`: A guarded read that does what a reader does.

## Theorems

* `Guarded.digits_eq`: No bit is lost while the digits of a number are put together.
* `Guarded.Mirrors.agree`, `Guarded.Mirrors.andThen`: One read behind the other.
* `Guarded.Mirrors.loop`: One round behind the other.
* `Guarded.mirrors_u8`, `mirrors_varint`, `mirrors_u32`, `mirrors_text`, `mirrors_u64`: The
  fields.
* `Guarded.Mirrors.safe`: Reading an entry from its front.
-/

namespace Concordance

namespace Guarded

/-- The bytes from `start` up to `stop`, which have to be there. -/
def part (bytes : Bytes) (start stop : Nat) : Except Error Bytes :=
  if start ≤ stop ∧ stop ≤ bytes.length then .ok ((bytes.take stop).drop start)
  else .error .fault

/-- What is left of a number, which must not be less than what is taken away. -/
def difference (value less : Nat) : Except Error Nat :=
  if less ≤ value then .ok (value - less) else .error .fault

theorem part_eq {bytes : Bytes} {start stop : Nat} (hstart : start ≤ stop)
    (hstop : stop ≤ bytes.length) : part bytes start stop = .ok ((bytes.take stop).drop start) :=
  if_pos ⟨hstart, hstop⟩

theorem difference_eq {value less : Nat} (h : less ≤ value) :
    difference value less = .ok (value - less) :=
  if_pos h

theorem checked_eq {value : Nat} (h : value < UInt64.size) : checked value = .ok value :=
  if_pos h

/-- Two computations, the first with its steps guarded, come to the same: to a value, or to
    corruption. In particular no guard of the first one is hit. -/
inductive Safe {α : Type} : Except Error α → Except Error α → Prop
  | value (a : α) : Safe (.ok a) (.ok a)
  | corrupt (cause : Corruption) : Safe (.error (.corrupt cause)) (.error (.corrupt cause))

namespace Safe

variable {α β : Type} {guarded plain : Except Error α}

theorem eq (h : Safe guarded plain) : guarded = plain := by
  cases h <;> rfl

/-- What a guarded computation comes to is a value or corruption. -/
theorem self (h : Safe guarded plain) : Safe plain plain := by
  cases h with
  | value a => exact .value a
  | corrupt cause => exact .corrupt cause

theorem corrupt_of_error (h : Safe guarded plain) {e : Error} (hplain : plain = .error e) :
    ∃ cause, e = .corrupt cause := by
  cases h with
  | value a => exact absurd hplain (by simp)
  | corrupt cause => exact ⟨cause, (Except.error.inj hplain).symm⟩

/-- What has no guard in it is safe if it only fails on corruption. -/
theorem refl (h : ∀ e, plain = .error e → ∃ cause, e = .corrupt cause) : Safe plain plain := by
  rcases plain with e | a
  · rcases h e rfl with ⟨cause, rfl⟩
    exact .corrupt cause
  · exact .value a

/-- One computation after the other. -/
theorem bind (h : Safe guarded plain) {f g : α → Except Error β}
    (hnext : ∀ a, plain = .ok a → Safe (f a) (g a)) : Safe (guarded >>= f) (plain >>= g) := by
  cases h with
  | value a => exact hnext a rfl
  | corrupt cause => exact .corrupt cause

theorem map (h : Safe guarded plain) (f : α → β) : Safe (guarded.map f) (plain.map f) := by
  cases h with
  | value a => exact .value _
  | corrupt cause => exact .corrupt cause

end Safe

/-- A place in the bytes of an entry. -/
structure Cursor where
  bytes : Bytes
  position : Nat := 0
deriving DecidableEq, Repr

/-- What reads from a cursor and moves it on. -/
abbrev Read := StateT Cursor (Except Error)

/-- Moves on. -/
def forward (count : Nat) : Read Unit := fun c => do
  let position ← checked (c.position + count)
  return ((), { c with position })

/-- The bytes from the cursor on, none if it is behind the end. -/
def remaining : Read Bytes := fun c => do
  let rest ← part c.bytes (min c.position c.bytes.length) c.bytes.length
  return (rest, c)

/-- The next byte, left in place. -/
def peek : Read UInt8 := fun c =>
  match c.bytes[c.position]? with
  | some b => .ok (b, c)
  | none => .error (.corrupt (.endOfData c.position))

/-- The next byte. -/
def u8 : Read UInt8 := do
  let b ← peek
  forward 1
  return b

/-- Reads on in a number with at most `left` more bytes, `value` being what was read so far and
    `used` the number of bytes that it took. A bit that is pushed out of 64 is a fault here. -/
def digits (value used : Nat) : (left : Nat) → Bytes → Except Error (Nat × Nat)
  | 0, _ => .error (.corrupt .varintTooLong)
  | _ + 1, [] => .error (.corrupt .incompleteVarint)
  | left + 1, b :: rest =>
    if value >>> 57 ≠ 0 then .error (.corrupt .varintOverflow)
    else do
      let shifted ← checked (value * 128)
      let value ← checked (shifted + b.toNat % 128)
      let used ← checked (used + 1)
      if b < 0x80 then .ok (value, used) else digits value used left rest

/-- The number at the front of the bytes, and how many bytes it takes. -/
def number (bytes : Bytes) : Except Error (Nat × Nat) :=
  match bytes with
  | [] => .error (.corrupt .emptyVarint)
  | _ :: _ => digits 0 0 Varint.maxLength bytes

/-- A variable-length number. -/
def varint : Read Nat := do
  let rest ← remaining
  let (value, used) ← number rest
  forward used
  return value

/-- A variable-length number that has to fit in 32 bits. -/
def u32 : Read UInt32 := do
  let value ← varint
  if value < UInt32.size then return UInt32.ofNat value
  else throw (.corrupt (.exceedsU32 value))

/-- The bytes before the first NUL. -/
def untilNul (bytes : Bytes) : Except Error Bytes :=
  match bytes.findIdx? fun b => b == 0 with
  | some stop => part bytes 0 stop
  | none => .error (.corrupt .unterminated)

/-- The bytes up to a NUL; the NUL is taken too. -/
def terminated : Read Bytes := do
  let rest ← remaining
  let key ← untilNul rest
  let length ← checked (key.length + 1)
  forward length
  return key

/-- The text up to a NUL. -/
def text : Read String := do
  let raw ← terminated
  match Utf8.decode raw with
  | .ok word => return word
  | .error fault => throw (.corrupt (.notText fault))

/-- Eight bytes as a number. Whether they are there is asked first, and they are copied to a
    place that takes eight. -/
def u64 : Read Nat := fun c =>
  if c.position + 8 < UInt64.size ∧ c.position + 8 ≤ c.bytes.length then do
    let field ← part c.bytes c.position (c.position + 8)
    if field.length = 8 then return (littleEndian field, { c with position := c.position + 8 })
    else .error .fault
  else .error (.corrupt (.truncatedOffset c.position))

/-- The number of bytes left. -/
def Cursor.left (c : Cursor) : Nat :=
  c.bytes.length - c.position

/-- Does the same over and over until it comes to a result. A round that takes no bytes would be
    followed by another one like it for ever, and so it is a fault as well. -/
def loop {σ α : Type} (body : σ → Read (σ ⊕ α)) (s : σ) (c : Cursor) : Except Error (α × Cursor) :=
  match body s c with
  | .error e => .error e
  | .ok (.inr a, c') => .ok (a, c')
  | .ok (.inl s', c') => if c'.left < c.left then loop body s' c' else .error .fault
termination_by c.left

/-- What a read makes of an entry from its front. -/
def front {α : Type} (read : Read α) (entry : Bytes) : Except Error α :=
  (read ⟨entry, 0⟩).map Prod.fst

/-- The first of two reads of an entry is a guarded one, and both have come to the same: to the
    same value, stopping at the same place inside the entry, or to the same corruption. -/
inductive Agree {α : Type} (bytes : Bytes) :
    Except Error (α × Cursor) → Except Error α × Reader → Prop
  | value (a : α) (q : Nat) (inside : q ≤ bytes.length) :
    Agree bytes (.ok (a, ⟨bytes, q⟩)) (.ok a, ⟨bytes.drop q, q⟩)
  | corrupt (cause : Corruption) (r : Reader) :
    Agree bytes (.error (.corrupt cause)) (.error (.corrupt cause), r)

/-- A guarded read that does what a reader does, wherever it stands in an entry. -/
def Mirrors {α : Type} (guarded : Read α) (plain : Reader → Except Error α × Reader) : Prop :=
  ∀ (bytes : Bytes) (p : Nat), bytes.length < UInt64.size → p ≤ bytes.length →
    Agree bytes (guarded ⟨bytes, p⟩) (plain ⟨bytes.drop p, p⟩)

section Chains

variable {α β : Type} {bytes : Bytes} {p : Nat} {guarded : Read α} {next : α → Read β}
  {plain : Reader → Except Error α × Reader} {next' : α → Reader → Except Error β × Reader}

/-- One read behind the other, from a place inside an entry. The second one only has to agree
    where the first one has stopped. -/
theorem Mirrors.agree (h : Mirrors guarded plain) (hsize : bytes.length < UInt64.size)
    (hp : p ≤ bytes.length)
    (hnext : ∀ a q, q ≤ bytes.length → plain ⟨bytes.drop p, p⟩ = (.ok a, ⟨bytes.drop q, q⟩) →
      Agree bytes (next a ⟨bytes, q⟩) (next' a ⟨bytes.drop q, q⟩)) :
    Agree bytes ((guarded >>= next) ⟨bytes, p⟩) (Reader.andThen plain next' ⟨bytes.drop p, p⟩) := by
  have hagree := h bytes p hsize hp
  change Agree bytes (guarded ⟨bytes, p⟩ >>= fun read => next read.1 read.2) _
  unfold Reader.andThen
  -- What the two have come to is all that counts, and not how.
  generalize guarded ⟨bytes, p⟩ = outcome at hagree
  generalize plain ⟨bytes.drop p, p⟩ = outcome' at hagree hnext
  cases hagree with
  | value a q inside => exact hnext a q inside rfl
  | corrupt cause r => exact .corrupt cause r

theorem Mirrors.andThen (h : Mirrors guarded plain) (hnext : ∀ a, Mirrors (next a) (next' a)) :
    Mirrors (guarded >>= next) (Reader.andThen plain next') := fun bytes _ hsize hp =>
  h.agree hsize hp fun a q hq _ => hnext a bytes q hsize hq

/-- What takes no bytes. -/
theorem mirrors_pure (a : α) : Mirrors (pure a) fun r => (.ok a, r) := fun _ q _ hq =>
  .value a q hq

theorem mirrors_throw (cause : Corruption) :
    Mirrors (throw (.corrupt cause) : Read α) fun r => (.error (.corrupt cause), r) :=
  fun _ _ _ _ => .corrupt cause _

/-- What takes no bytes and may go wrong, and a read behind it. -/
theorem Safe.agree {outcome outcome' : Except Error α} (h : Safe outcome outcome')
    (hnext : ∀ a, outcome' = .ok a →
      Agree bytes (next a ⟨bytes, p⟩) (next' a ⟨bytes.drop p, p⟩)) :
    Agree bytes ((liftM outcome >>= next : Read β) ⟨bytes, p⟩)
      (Reader.andThen (fun r => (outcome', r)) next' ⟨bytes.drop p, p⟩) := by
  cases h with
  | value a => exact hnext a rfl
  | corrupt cause => exact .corrupt cause _

/-- A loop, of which the rounds are mirrored. -/
theorem Mirrors.loop {σ : Type} {body : σ → Read (σ ⊕ α)}
    {round : σ → Reader → Except Error (σ ⊕ α) × Reader}
    {plain : σ → Reader → Except Error α × Reader} (h : Reader.Rounds plain round)
    (hround : ∀ s, Mirrors (body s) (round s)) (s : σ) : Mirrors (loop body s) (plain s) := by
  intro bytes p hsize hp
  -- On the bytes left, of which every round leaves fewer.
  induction hleft : bytes.length - p using Nat.strongRecOn generalizing s p with
  | ind left ih =>
    subst hleft
    rw [h.eq, Guarded.loop, Reader.andThen]
    have hagree := hround s bytes p hsize hp
    have hfewer : ∀ s' r', round s ⟨bytes.drop p, p⟩ = (.ok (.inl s'), r') →
        r'.rest.length < (bytes.drop p).length := fun _ _ htaken => h.takes htaken
    generalize body s ⟨bytes, p⟩ = outcome at hagree
    generalize round s ⟨bytes.drop p, p⟩ = outcome' at hagree hfewer
    cases hagree with
    | corrupt cause r => exact .corrupt cause r
    | value next q inside =>
      rcases next with s' | a
      · have hless := hfewer _ _ rfl
        rw [List.length_drop, List.length_drop] at hless
        change Agree bytes (if bytes.length - q < bytes.length - p then _ else _) _
        rw [if_pos hless]
        exact ih _ hless s' q inside rfl
      · exact .value a q inside

/-- A guarded read of an entry from its front has no fault. -/
theorem Mirrors.safe (h : Mirrors guarded plain) {entry : Bytes}
    (hsize : entry.length < UInt64.size) : Safe (front guarded entry) (plain ⟨entry, 0⟩).1 := by
  have hagree := h entry 0 hsize (Nat.zero_le _)
  rw [List.drop_zero] at hagree
  unfold front
  generalize guarded ⟨entry, 0⟩ = outcome at hagree ⊢
  generalize plain ⟨entry, 0⟩ = outcome' at hagree ⊢
  cases hagree with
  | value a q inside => exact .value a
  | corrupt cause r => exact .corrupt cause

end Chains

section Fields

variable {bytes : Bytes} {p count : Nat}

/-- Inside an entry there is a slice up to the end. -/
theorem remaining_eq (hp : p ≤ bytes.length) :
    remaining ⟨bytes, p⟩ = .ok (bytes.drop p, ⟨bytes, p⟩) := by
  unfold remaining
  rw [Nat.min_eq_left hp, part_eq hp (Nat.le_refl _), List.take_length]
  rfl

/-- A look at the bytes that are left, and a read behind it. -/
theorem remaining_agree {α : Type} {next : Bytes → Read α}
    {next' : Bytes → Reader → Except Error α × Reader} (hp : p ≤ bytes.length)
    (hnext : Agree bytes (next (bytes.drop p) ⟨bytes, p⟩)
      (next' (bytes.drop p) ⟨bytes.drop p, p⟩)) :
    Agree bytes ((remaining >>= next) ⟨bytes, p⟩)
      (Reader.andThen (fun r => (.ok r.rest, r)) next' ⟨bytes.drop p, p⟩) := by
  change Agree bytes (remaining ⟨bytes, p⟩ >>= fun read => next read.1 read.2) _
  rw [remaining_eq hp]
  exact hnext

/-- A step that ends inside an entry is no overflow. -/
theorem forward_eq (hsize : bytes.length < UInt64.size) (hp : p + count ≤ bytes.length) :
    forward count ⟨bytes, p⟩ = .ok ((), ⟨bytes, p + count⟩) := by
  unfold forward
  rw [checked_eq (Nat.lt_of_le_of_lt hp hsize)]
  rfl

/-- Moving on inside an entry, with a value. -/
theorem agree_forward {α : Type} (hsize : bytes.length < UInt64.size)
    (hp : p + count ≤ bytes.length) (a : α) :
    Agree bytes ((forward count >>= fun _ => pure a : Read α) ⟨bytes, p⟩)
      (.ok a, Reader.forward ⟨bytes.drop p, p⟩ count) := by
  change Agree bytes (forward count ⟨bytes, p⟩ >>= fun read => .ok (a, read.2)) _
  rw [forward_eq hsize hp, Reader.forward, List.drop_drop]
  exact .value a (p + count) hp

theorem mirrors_peek : Mirrors peek fun r => (r.peek, r) := by
  intro bytes p hsize hp
  unfold peek
  rw [← List.head?_drop]
  rcases hdrop : bytes.drop p with _ | ⟨b, rest⟩
  · exact .corrupt _ _
  · change Agree bytes (.ok (b, ⟨bytes, p⟩)) (.ok b, ⟨b :: rest, p⟩)
    rw [← hdrop]
    exact .value b p hp

theorem mirrors_u8 : Mirrors u8 Reader.u8 := by
  have heq : Reader.u8 = Reader.andThen (fun r => (r.peek, r)) fun b r => (.ok b, r.forward 1) := by
    funext r
    rw [Reader.u8, Reader.andThen]
    rcases r.peek with e | b <;> rfl
  rw [heq]
  refine fun bytes p hsize hp => mirrors_peek.agree hsize hp fun b q hq hread => ?_
  -- There is a byte, so there is room for the step behind it.
  obtain ⟨hpeek, hplace⟩ := Prod.mk.inj hread
  obtain rfl : p = q := congrArg Reader.position hplace
  have hroom := Reader.peek_length hpeek
  rw [List.length_drop] at hroom
  exact agree_forward hsize (by omega) b

/-- No bit is lost while the digits of a number are put together. -/
theorem digits_eq {value used left : Nat} (hroom : used + left < UInt64.size) (bytes : Bytes) :
    digits value used left bytes = Varint.decodeFrom value used left bytes := by
  -- On the bytes that the number may still take.
  induction left generalizing value used bytes with
  | zero => rfl
  | succ left ih =>
    rcases bytes with _ | ⟨b, rest⟩
    · rfl
    · have hsize : UInt64.size = 2 ^ 57 * 128 := rfl
      have hshift : value >>> 57 = value / 2 ^ 57 := Nat.shiftRight_eq_div_pow value 57
      unfold digits Varint.decodeFrom
      by_cases hbig : UInt64.size ≤ value * 128
      · rw [if_pos hbig, if_pos (by omega)]
      · rw [if_neg hbig, if_neg (by omega), checked_eq (by omega)]
        -- Seven bits are free, and the digit has no more.
        have hdigit : value * 128 + b.toNat % 128 < UInt64.size := by omega
        change (checked (value * 128 + b.toNat % 128) >>= fun value => checked (used + 1) >>=
          fun used => if b < 0x80 then .ok (value, used) else digits value used left rest) = _
        rw [checked_eq hdigit, checked_eq (by omega)]
        change (if b < 0x80 then _ else _) = _
        rw [ih (by omega)]

theorem number_eq (bytes : Bytes) : number bytes = Varint.decode bytes := by
  rcases bytes with _ | ⟨b, rest⟩
  · rfl
  · exact digits_eq (by decide) _

theorem safe_number (bytes : Bytes) : Safe (number bytes) (Varint.decode bytes) := by
  rw [number_eq]
  exact .refl fun e h => Varint.decode_corrupt h

theorem mirrors_varint : Mirrors varint Reader.varint := by
  have heq : Reader.varint = Reader.andThen (fun r => (.ok r.rest, r)) fun rest =>
      Reader.andThen (fun r => (Varint.decode rest, r)) fun found r =>
        (.ok found.1, r.forward found.2) := by
    funext r
    simp only [Reader.varint, Reader.andThen]
    rcases Varint.decode r.rest with e | found <;> rfl
  rw [heq]
  refine fun bytes p hsize hp => remaining_agree hp ((safe_number _).agree fun found hdecode => ?_)
  -- A number has no more bytes than there are.
  rcases found with ⟨value, used⟩
  have hused := (Varint.decode_used hdecode).2
  rw [List.length_drop] at hused
  exact agree_forward hsize (by omega) value

theorem mirrors_u32 : Mirrors u32 Reader.u32 := by
  rw [Reader.u32_eq]
  refine mirrors_varint.andThen fun value => ?_
  by_cases hsmall : value < UInt32.size
  · simp only [if_pos hsmall]
    exact mirrors_pure _
  · simp only [if_neg hsmall]
    exact mirrors_throw _

/-- The slice up to a NUL ends in front of it. -/
theorem untilNul_eq (bytes : Bytes) : untilNul bytes = Concordance.untilNul bytes := by
  unfold untilNul Concordance.untilNul
  rcases hfind : bytes.findIdx? fun b => b == 0 with _ | stop
  · have hnone : bytes.contains 0 = false := by
      rw [List.findIdx?_eq_none_iff] at hfind
      rw [← Bool.not_eq_true, List.contains_iff_mem]
      exact fun hmem => by simpa using hfind 0 hmem
    rw [hnone]
    rfl
  · rcases List.findIdx?_eq_some_iff_findIdx_eq.mp hfind with ⟨hlt, hindex⟩
    -- The place that was found holds a NUL, and nothing in front of it does.
    have hsome : bytes.contains 0 = true := by
      rw [List.contains_iff_mem]
      have hstop := List.findIdx_getElem (p := fun b : UInt8 => b == 0) (w := hindex ▸ hlt)
      exact beq_iff_eq.mp hstop ▸ List.getElem_mem _
    rw [hsome, if_pos rfl]
    change part bytes 0 stop = _
    rw [part_eq (Nat.zero_le _) (Nat.le_of_lt hlt), List.drop_zero,
      List.takeWhile_eq_take_findIdx_not, ← hindex]
    simp only [bne, Bool.not_not]

theorem safe_untilNul (bytes : Bytes) : Safe (untilNul bytes) (Concordance.untilNul bytes) := by
  rw [untilNul_eq]
  exact .refl fun e h => untilNul_corrupt h

theorem mirrors_terminated : Mirrors terminated Reader.terminated := by
  have heq : Reader.terminated = Reader.andThen (fun r => (.ok r.rest, r)) fun rest =>
      Reader.andThen (fun r => (Concordance.untilNul rest, r)) fun key r =>
        (.ok key, r.forward (key.length + 1)) := by
    funext r
    simp only [Reader.terminated, Reader.andThen]
    rcases Concordance.untilNul r.rest with e | key <;> rfl
  rw [heq]
  refine fun bytes p hsize hp => remaining_agree hp ((safe_untilNul _).agree fun key hkey => ?_)
  -- The NUL behind the key is there as well.
  have hlength := untilNul_length hkey
  rw [List.length_drop] at hlength
  rw [checked_eq (by omega)]
  exact agree_forward hsize (by omega) key

theorem mirrors_text : Mirrors text Reader.text := by
  rw [Reader.text_eq]
  refine mirrors_terminated.andThen fun raw => ?_
  rcases Utf8.decode raw with fault | word
  · exact mirrors_throw _
  · exact mirrors_pure word

theorem mirrors_u64 : Mirrors u64 Reader.u64 := by
  intro bytes p hsize hp
  change Agree bytes
    (if p + 8 < UInt64.size ∧ p + 8 ≤ bytes.length then
      part bytes p (p + 8) >>= fun field =>
        if field.length = 8 then .ok (littleEndian field, ⟨bytes, p + 8⟩) else .error .fault
    else .error (.corrupt (.truncatedOffset p)))
    (if ((bytes.drop p).take 8).length = 8 then _ else _)
  have hlength : ((bytes.drop p).take 8).length = min 8 (bytes.length - p) := by
    rw [List.length_take, List.length_drop]
  by_cases hroom : p + 8 ≤ bytes.length
  · have height : ((bytes.drop p).take 8).length = 8 := by omega
    -- The field is cut out from the bytes in the one reader, and from what is left in the other.
    have hfield : (bytes.take (p + 8)).drop p = (bytes.drop p).take 8 := by
      rw [List.drop_take, Nat.add_sub_cancel_left]
    rw [if_pos ⟨by omega, hroom⟩, part_eq (Nat.le_add_right _ _) hroom, hfield, if_pos height]
    change Agree bytes (if ((bytes.drop p).take 8).length = 8 then _ else _) _
    rw [if_pos height, Reader.forward, List.drop_drop]
    exact .value _ (p + 8) hroom
  · rw [if_neg (fun h => hroom h.2), if_neg (by omega)]
    exact .corrupt _ _

end Fields

end Guarded

end Concordance
