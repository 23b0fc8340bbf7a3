import Concordance.Proofs.Reader

/-!
# Reads That Do Not Look Behind

A field that could be read is read just so where more bytes follow.

Reading back says what becomes of bytes that were written as a whole. This is about bytes
of which nothing is known, such as those of a file that was cut off. Whatever a read makes
of them, it does not depend on what the cut took away. So if a read of the part succeeds,
it is the read of the whole, and a part that the whole could not have begun with must fail.
`Steady` is this property, together with the other half of it: where a read fails, it is
the bytes that are wrong and not the reader.

## Main definitions

* `Reader.followed`: The same place, where more bytes follow.
* `Reader.Steady`: A read that does not look behind the field it takes.
* `Reader.andThen`: A read, and another one behind what it took.
* `Reader.Rounds`: A read that does the same over and over.

## Theorems

* `Reader.Steady.andThen`, `Reader.Rounds.steady`: Reads one after the other.
* `Reader.steady_u8`, `steady_varint`, `steady_u32`, `steady_text`: The fields.
-/

namespace Concordance

namespace Varint

/-- A number that was read is read as well where more bytes follow. -/
theorem decodeFrom_append {value used left : Nat} {bytes : Bytes} {number : Nat × Nat}
    (h : decodeFrom value used left bytes = .ok number) (more : Bytes) :
    decodeFrom value used left (bytes ++ more) = .ok number := by
  -- On the bytes that a number may have left, which the bytes behind it do not change.
  induction left generalizing value used bytes with
  | zero => exact absurd h (by simp [decodeFrom])
  | succ left ih =>
    rcases bytes with _ | ⟨b, rest⟩
    · exact absurd h (by simp [decodeFrom])
    · rw [List.cons_append]
      rw [decodeFrom] at h ⊢
      by_cases hbig : UInt64.size ≤ value * 128
      · rw [if_pos hbig] at h
        exact absurd h (by simp)
      · rw [if_neg hbig] at h ⊢
        by_cases hlast : b < 0x80
        · simp only [if_pos hlast] at h ⊢
          exact h
        · simp only [if_neg hlast] at h ⊢
          exact ih h

theorem decode_append {bytes : Bytes} {number : Nat × Nat} (h : decode bytes = .ok number)
    (more : Bytes) : decode (bytes ++ more) = .ok number := by
  rcases bytes with _ | ⟨b, rest⟩
  · exact absurd h (by simp [decode])
  · exact decodeFrom_append h more

/-- Bytes that are no number are corrupt. -/
theorem decodeFrom_corrupt {value used left : Nat} {bytes : Bytes} {e : Error}
    (h : decodeFrom value used left bytes = .error e) : ∃ cause, e = .corrupt cause := by
  induction left generalizing value used bytes with
  | zero => exact ⟨_, (Except.error.inj h).symm⟩
  | succ left ih =>
    rcases bytes with _ | ⟨b, rest⟩
    · exact ⟨_, (Except.error.inj h).symm⟩
    · rw [decodeFrom] at h
      by_cases hbig : UInt64.size ≤ value * 128
      · rw [if_pos hbig] at h
        exact ⟨_, (Except.error.inj h).symm⟩
      · rw [if_neg hbig] at h
        by_cases hlast : b < 0x80
        · simp only [if_pos hlast, reduceCtorEq] at h
        · simp only [if_neg hlast] at h
          exact ih h

theorem decode_corrupt {bytes : Bytes} {e : Error} (h : decode bytes = .error e) :
    ∃ cause, e = .corrupt cause := by
  rcases bytes with _ | ⟨b, rest⟩
  · exact ⟨_, (Except.error.inj h).symm⟩
  · exact decodeFrom_corrupt h

end Varint

/-- The bytes before the first NUL are there as well where more bytes follow. -/
theorem untilNul_append_of_ok {bytes key : Bytes} (h : untilNul bytes = .ok key) (more : Bytes) :
    untilNul (bytes ++ more) = .ok key := by
  rw [untilNul] at h
  split at h
  · rename_i hnul
    rw [List.contains_iff_mem] at hnul
    have hmem : (bytes ++ more).contains (0 : UInt8) = true := by
      rw [List.contains_iff_mem]
      exact List.mem_append_left _ hnul
    rw [untilNul, if_pos hmem, ← Except.ok.inj h]
    -- The NUL is in the first part, so no byte of the second is taken.
    have hstop : ¬ ∀ b ∈ bytes, (b != 0) = true := fun hall => by simpa using hall 0 hnul
    rw [List.takeWhile_append, if_neg]
    intro hlength
    refine hstop fun b hb => ?_
    rw [← (List.takeWhile_prefix _).eq_of_length hlength] at hb
    exact List.all_eq_true.mp List.all_takeWhile b hb
  · exact absurd h (by simp)

/-- A key that was found ends inside the bytes, its NUL included. -/
theorem untilNul_length {bytes key : Bytes} (h : untilNul bytes = .ok key) :
    key.length + 1 ≤ bytes.length := by
  rw [untilNul] at h
  split at h
  · rename_i hnul
    rw [List.contains_iff_mem] at hnul
    rw [← Except.ok.inj h]
    refine Nat.lt_of_le_of_ne (List.takeWhile_prefix _).length_le fun hlength => ?_
    have hzero := hnul
    rw [← (List.takeWhile_prefix _).eq_of_length hlength] at hzero
    simpa using List.all_eq_true.mp List.all_takeWhile 0 hzero
  · exact absurd h (by simp)

theorem untilNul_corrupt {bytes : Bytes} {e : Error} (h : untilNul bytes = .error e) :
    ∃ cause, e = .corrupt cause := by
  rw [untilNul] at h
  split at h
  · exact absurd h (by simp)
  · exact ⟨_, (Except.error.inj h).symm⟩

namespace Reader

/-- The same place, where more bytes follow. -/
def followed (r : Reader) (more : Bytes) : Reader :=
  ⟨r.rest ++ more, r.position⟩

/-- Moving on inside the bytes that are there. -/
theorem forward_followed {r : Reader} {count : Nat} (h : count ≤ r.rest.length) (more : Bytes) :
    (r.followed more).forward count = (r.forward count).followed more := by
  simp only [forward, followed, List.drop_append_of_le_length h]

/-- A read that does not look behind the field it takes, and only fails on bytes that are
    corrupt. -/
structure Steady {α : Type} (read : Reader → Except Error α × Reader) : Prop where
  followed : ∀ {r a r'}, read r = (.ok a, r') →
    ∀ more, read (r.followed more) = (.ok a, r'.followed more)
  corrupt : ∀ {r e r'}, read r = (.error e, r') → ∃ cause, e = .corrupt cause

theorem peek_followed {r : Reader} {b : UInt8} (h : r.peek = .ok b) (more : Bytes) :
    (r.followed more).peek = .ok b := by
  rcases r with ⟨_ | ⟨c, cs⟩, position⟩
  · exact absurd h (by simp [peek])
  · exact h

theorem peek_corrupt {r : Reader} {e : Error} (h : r.peek = .error e) :
    ∃ cause, e = .corrupt cause := by
  rcases r with ⟨_ | ⟨c, cs⟩, position⟩
  · exact ⟨_, (Except.error.inj h).symm⟩
  · exact absurd h (by simp [peek])

theorem peek_length {r : Reader} {b : UInt8} (h : r.peek = .ok b) : 1 ≤ r.rest.length := by
  rcases r with ⟨_ | ⟨c, cs⟩, position⟩
  · exact absurd h (by simp [peek])
  · exact Nat.succ_pos _

/-- A read, and another one behind what it took. -/
def andThen {α β : Type} (read : Reader → Except Error α × Reader)
    (next : α → Reader → Except Error β × Reader) (r : Reader) : Except Error β × Reader :=
  match read r with
  | (.error e, r') => (.error e, r')
  | (.ok a, r') => next a r'

/-- What comes of two reads comes of the second one. -/
theorem exists_of_andThen {α β : Type} {read : Reader → Except Error α × Reader}
    {next : α → Reader → Except Error β × Reader} {r r' : Reader} {b : β}
    (h : andThen read next r = (.ok b, r')) :
    ∃ a r₁, read r = (.ok a, r₁) ∧ next a r₁ = (.ok b, r') := by
  rw [andThen] at h
  rcases hread : read r with ⟨e | a, r₁⟩
  · simp only [hread, Prod.mk.injEq, reduceCtorEq, false_and] at h
  · simp only [hread] at h
    exact ⟨a, r₁, rfl, h⟩

/-- What goes wrong with two reads goes wrong with one of them. -/
theorem error_of_andThen {α β : Type} {read : Reader → Except Error α × Reader}
    {next : α → Reader → Except Error β × Reader} {r r' : Reader} {e : Error}
    (h : andThen read next r = (.error e, r')) :
    read r = (.error e, r') ∨ ∃ a r₁, read r = (.ok a, r₁) ∧ next a r₁ = (.error e, r') := by
  rw [andThen] at h
  rcases hread : read r with ⟨e' | a, r₁⟩
  · simp only [hread, Prod.mk.injEq, Except.error.injEq] at h
    rcases h with ⟨rfl, rfl⟩
    exact .inl rfl
  · simp only [hread] at h
    exact .inr ⟨a, r₁, rfl, h⟩

theorem Steady.andThen {α β : Type} {read : Reader → Except Error α × Reader} (h : Steady read)
    {next : α → Reader → Except Error β × Reader} (hnext : ∀ a, Steady (next a)) :
    Steady (andThen read next) := by
  refine ⟨fun {r b r'} hread more => ?_, fun {r e r'} hread => ?_⟩
  · -- The second read begins where the first one has left off, with more behind it.
    rcases exists_of_andThen hread with ⟨a, s, hfirst, hsecond⟩
    rw [Reader.andThen]
    simp only [h.followed hfirst]
    exact (hnext a).followed hsecond more
  · rcases error_of_andThen hread with hfirst | ⟨a, s, -, hsecond⟩
    · exact h.corrupt hfirst
    · exact (hnext a).corrupt hsecond

/-- A read that does the same over and over until it comes to a result, each round taking
    something. -/
structure Rounds {σ α : Type} (read : σ → Reader → Except Error α × Reader)
    (round : σ → Reader → Except Error (σ ⊕ α) × Reader) : Prop where
  eq : ∀ s, read s = andThen (round s) (Sum.elim read fun a r => (.ok a, r))
  takes : ∀ {s s' r r'}, round s r = (.ok (.inl s'), r') → r'.rest.length < r.rest.length

/-- Rounds that do not look behind what they take, one after the other. -/
theorem Rounds.steady {σ α : Type} {read : σ → Reader → Except Error α × Reader}
    {round : σ → Reader → Except Error (σ ⊕ α) × Reader} (h : Rounds read round)
    (hround : ∀ s, Steady (round s)) (s : σ) : Steady (read s) := by
  refine ⟨fun {r a r'} hread more => ?_, fun {r e r'} hread => ?_⟩
  · -- On the bytes left, of which only the last round sees the end.
    induction hlength : r.rest.length using Nat.strongRecOn generalizing s r with
    | ind length ih =>
      subst hlength
      rw [h.eq] at hread ⊢
      rcases exists_of_andThen hread with ⟨next, r₁, hfirst, hnext⟩
      rw [Reader.andThen]
      simp only [(hround s).followed hfirst more]
      rcases next with s' | b
      · exact ih _ (h.takes hfirst) s' hnext rfl
      · rcases Prod.mk.inj hnext with ⟨hb, rfl⟩
        exact Prod.ext hb rfl
  · -- An error is that of some round.
    induction hlength : r.rest.length using Nat.strongRecOn generalizing s r with
    | ind length ih =>
      subst hlength
      rw [h.eq] at hread
      rcases error_of_andThen hread with hfirst | ⟨next, r₁, hfirst, hnext⟩
      · exact (hround s).corrupt hfirst
      · rcases next with s' | b
        · exact ih _ (h.takes hfirst) s' hnext rfl
        · exact absurd (Prod.mk.inj hnext).1 (by simp)

/-- What takes no bytes does not look at any. -/
theorem steady_const {α : Type} {result : Except Error α}
    (h : ∀ e, result = .error e → ∃ cause, e = .corrupt cause) :
    Steady fun r => (result, r) := by
  refine ⟨fun {r a r'} hread more => ?_, fun {r e r'} hread => ?_⟩
  · rcases Prod.mk.inj hread with ⟨rfl, rfl⟩
    rfl
  · exact h e (Prod.mk.inj hread).1

theorem steady_ok {α : Type} (a : α) : Steady fun r => ((.ok a : Except Error α), r) :=
  steady_const fun e h => absurd h (by simp)

/-- A look at the next byte. -/
theorem steady_peek : Steady fun r => (r.peek, r) := by
  refine ⟨fun {r b r'} h more => ?_, fun {r e r'} h => peek_corrupt (Prod.mk.inj h).1⟩
  rcases Prod.mk.inj h with ⟨hpeek, rfl⟩
  exact Prod.ext (peek_followed hpeek more) rfl

theorem steady_u8 : Steady u8 := by
  refine ⟨fun {r b r'} h more => ?_, fun {r e r'} h => ?_⟩
  · rw [u8] at h ⊢
    rcases hpeek : r.peek with e | c
    · simp only [hpeek, Prod.mk.injEq, reduceCtorEq, false_and] at h
    · simp only [hpeek, Prod.mk.injEq, Except.ok.injEq] at h
      rcases h with ⟨rfl, rfl⟩
      simp only [peek_followed hpeek, forward_followed (peek_length hpeek)]
  · rw [u8] at h
    rcases hpeek : r.peek with e' | c
    · simp only [hpeek, Prod.mk.injEq, Except.error.injEq] at h
      rcases h with ⟨rfl, -⟩
      exact peek_corrupt hpeek
    · simp only [hpeek, Prod.mk.injEq, reduceCtorEq, false_and] at h

theorem steady_varint : Steady varint := by
  refine ⟨fun {r n r'} h more => ?_, fun {r e r'} h => ?_⟩
  · rw [varint] at h ⊢
    rcases hdecode : Varint.decode r.rest with e | ⟨value, used⟩
    · simp only [hdecode, Prod.mk.injEq, reduceCtorEq, false_and] at h
    · simp only [hdecode, Prod.mk.injEq, Except.ok.injEq] at h
      rcases h with ⟨rfl, rfl⟩
      have hmore : Varint.decode (r.followed more).rest = .ok (value, used) :=
        Varint.decode_append hdecode more
      simp only [hmore, forward_followed (Varint.decode_used hdecode).2]
  · rw [varint] at h
    rcases hdecode : Varint.decode r.rest with e' | ⟨value, used⟩
    · simp only [hdecode, Prod.mk.injEq, Except.error.injEq] at h
      rcases h with ⟨rfl, -⟩
      exact Varint.decode_corrupt hdecode
    · simp only [hdecode, Prod.mk.injEq, reduceCtorEq, false_and] at h

theorem steady_terminated : Steady terminated := by
  refine ⟨fun {r key r'} h more => ?_, fun {r e r'} h => ?_⟩
  · rw [terminated] at h ⊢
    rcases hkey : untilNul r.rest with e | found
    · simp only [hkey, Prod.mk.injEq, reduceCtorEq, false_and] at h
    · simp only [hkey, Prod.mk.injEq, Except.ok.injEq] at h
      rcases h with ⟨rfl, rfl⟩
      have hmore : untilNul (r.followed more).rest = .ok found := untilNul_append_of_ok hkey more
      simp only [hmore, forward_followed (untilNul_length hkey)]
  · rw [terminated] at h
    rcases hkey : untilNul r.rest with e' | found
    · simp only [hkey, Prod.mk.injEq, Except.error.injEq] at h
      rcases h with ⟨rfl, -⟩
      exact untilNul_corrupt hkey
    · simp only [hkey, Prod.mk.injEq, reduceCtorEq, false_and] at h

/-- A number that does not fit is taken off the front all the same, and then refused. -/
theorem u32_eq : u32 = Reader.andThen varint fun value r' =>
    if value < UInt32.size then (.ok (UInt32.ofNat value), r')
    else (.error (.corrupt (.exceedsU32 value)), r') := by
  funext r
  rw [u32, Reader.andThen]
  rcases r.varint with ⟨e | value, s⟩ <;> rfl

theorem steady_u32 : Steady u32 := by
  rw [u32_eq]
  refine steady_varint.andThen fun value => ?_
  by_cases hsmall : value < UInt32.size
  · simp only [if_pos hsmall]
    exact steady_ok _
  · simp only [if_neg hsmall]
    exact steady_const fun e he => ⟨_, (Except.error.inj he).symm⟩

/-- So are bytes that are no text. -/
theorem text_eq : text = Reader.andThen terminated fun raw r' =>
    ((Utf8.decode raw).mapError fun fault => .corrupt (.notText fault), r') := by
  funext r
  rw [text, Reader.andThen]
  rcases r.terminated with ⟨e | raw, s⟩
  · rfl
  · dsimp only
    cases Utf8.decode raw <;> rfl

theorem steady_text : Steady text := by
  rw [text_eq]
  refine steady_terminated.andThen fun raw => ?_
  rcases Utf8.decode raw with fault | word
  · exact steady_const fun e he => ⟨_, (Except.error.inj he).symm⟩
  · exact steady_ok word

end Reader

end Concordance
