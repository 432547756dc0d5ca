import Credence.Instant.Parser
import Credence.Instant.Printer
import Credence.Proofs.Instant.Calendar
import Credence.Proofs.Text.Digits
import Credence.Proofs.Traversal

/-! # Instants read back

An instant that a text spells lies on a day of the calendar, and only the last second of a minute
holds a leap second. What is written for such an instant spells it again.
-/

namespace Credence.Instant
open Text Calendar

/-- What is true of every instant that a text spells. -/
structure Spelled (t : Instant) : Prop where
  dated : (dateOfDay t.day).exists = true
  nano : t.nano < 2 * perSecond
  leap : perSecond ≤ t.nano → t.second % 60 = 59

def NoDigit (cs : List Char) : Prop := ∀ c ∈ cs.head?, c.isDigit = false

theorem skipBlanks_cons {c : Char} {cs : List Char} (h : isBlank c = false) :
    skipBlanks (c :: cs) = c :: cs := by
  simp [skipBlanks, h]

theorem skipBlanks_digits {ds rest : List Char} {n : Nat} (h : Spells ds n) :
    skipBlanks (ds ++ rest) = ds ++ rest := by
  cases ds with
  | nil => exact absurd rfl h.nonempty
  | cons d ds => exact skipBlanks_cons (isBlank_of_isDigit (h.digits d List.mem_cons_self))

/-- Digits are read up to the most that are wanted, or up to what is no digit. -/
theorem number_digits {ds rest : List Char} {most n : Nat} (h : Spells ds n)
    (fits : ds.length ≤ most) (ends : ds.length = most ∨ NoDigit rest) :
    number most (ds ++ rest) = .ok (n, rest) := by
  have taken : ((ds ++ rest).take most).takeWhile Char.isDigit = ds := by
    rw [List.take_append, List.take_of_length_le fits,
      List.takeWhile_append_of_pos h.digits]
    have none : ((rest.take (most - ds.length)).takeWhile Char.isDigit) = [] := by
      rcases ends with full | nodigit
      · simp [full]
      · cases rest with
        | nil => simp
        | cons c rest =>
          have stop : c.isDigit = false := nodigit c rfl
          cases most - ds.length <;> simp [stop]
    rw [none, List.append_nil]
  cases ds with
  | nil => exact absurd rfl h.nonempty
  | cons d ds =>
    have digit := h.digits d List.mem_cons_self
    rw [List.cons_append] at taken ⊢
    simp [number, digit, taken, h.value]

theorem expect_cons {c : Char} {cs : List Char} (h : isBlank c = false) :
    expect c (c :: cs) = .ok cs := by
  simp [expect, skipBlanks_cons h]

theorem bounded_padded {least greatest n : Nat} (low : least ≤ n) (high : n ≤ greatest)
    (fits : n < 100) (rest : List Char) :
    bounded least greatest ((padded 2 n).toList ++ rest) = .ok (n, rest) := by
  have spells := spells_padded 2 n
  have width : (padded 2 n).toList.length = 2 := length_padded (by decide) fits
  rw [bounded, skipBlanks_digits spells, number_digits spells (Nat.le_of_eq width) (.inl width)]
  exact if_pos ⟨low, high⟩

theorem noDigit_cons {c : Char} (h : c.isDigit = false) (cs : List Char) : NoDigit (c :: cs) := by
  simpa [NoDigit] using h

theorem spelledYear_eq {year : Int} (low : -2147483648 ≤ year) (high : year ≤ 2147483647)
    (rest : List Char) : spelledYear year rest = .ok (year, rest) := if_pos ⟨low, high⟩

section Year
variable {ds rest : List Char} {n : Nat}

/-- Up to four digits are a year without a sign. -/
theorem signedYear_plain (h : Spells ds n) (width : ds.length = 4) (fits : n ≤ 9999) :
    signedYear (ds ++ rest) = .ok ((n : Int), rest) := by
  have digits : number 4 (ds ++ rest) = .ok (n, rest) :=
    number_digits h (Nat.le_of_eq width) (.inl width)
  have first (sign : Char) (cs : List Char) (same : ds ++ rest = sign :: cs) :
      sign.isDigit = true := by
    cases ds with
    | nil => exact absurd rfl h.nonempty
    | cons d ds =>
      obtain rfl : d = sign := (List.cons.inj same).1
      exact h.digits d List.mem_cons_self
  rw [signedYear, skipBlanks_digits h]
  split
  · next same => cases first _ _ same
  · next same => cases first _ _ same
  · exact bind_eq_ok_iff.2 ⟨_, digits, spelledYear_eq (by omega) (by omega) rest⟩

theorem signedYear_minus (h : Spells ds n) (stop : NoDigit rest) (fits : n ≤ 2147483648) :
    signedYear ('-' :: (ds ++ rest)) = .ok (-(n : Int), rest) := by
  have digits : number (ds ++ rest).length (ds ++ rest) = .ok (n, rest) :=
    number_digits h (by simp) (.inr stop)
  rw [signedYear, skipBlanks_cons (by decide)]
  exact bind_eq_ok_iff.2 ⟨_, digits, spelledYear_eq (by omega) (by omega) rest⟩

theorem signedYear_plus (h : Spells ds n) (stop : NoDigit rest) (fits : n ≤ 2147483647) :
    signedYear ('+' :: (ds ++ rest)) = .ok ((n : Int), rest) := by
  have digits : number (ds ++ rest).length (ds ++ rest) = .ok (n, rest) :=
    number_digits h (by simp) (.inr stop)
  rw [signedYear, skipBlanks_cons (by decide)]
  exact bind_eq_ok_iff.2 ⟨_, digits, spelledYear_eq (by omega) (by omega) rest⟩

end Year

/-- A year is read back with the sign that it may have. -/
theorem signedYear_yearText {year : Int} (low : -2147483648 ≤ year) (high : year ≤ 2147483647)
    {rest : List Char} (stop : NoDigit rest) :
    signedYear ((yearText year).toList ++ rest) = .ok (year, rest) := by
  unfold yearText
  split
  · next plain =>
    have fits : year.toNat < 10 ^ 4 := by omega
    rw [signedYear_plain (spells_padded 4 year.toNat) (length_padded (by decide) fits) (by omega),
      Int.toNat_of_nonneg plain.1]
  · next signed =>
    have spells := spells_padded 4 year.natAbs
    split
    · next negative =>
      have value : -(year.natAbs : Int) = year := by omega
      have read := signedYear_minus spells stop (by omega)
      rw [value] at read
      simpa using read
    · next positive =>
      have value : (year.natAbs : Int) = year := by omega
      have read := signedYear_plus spells stop (by omega)
      rw [value] at read
      simpa using read

theorem fraction_padded {width n : Nat} (positive : 0 < width) (most : width ≤ 9)
    (fits : n < 10 ^ width) {rest : List Char} (stop : NoDigit rest) :
    fraction ('.' :: ((padded width n).toList ++ rest)) =
      .ok (n * Decimal.tenTo (9 - width), rest) := by
  have length := length_padded positive fits
  have digits : number 9 ((padded width n).toList ++ rest) = .ok (n, rest) :=
    number_digits (spells_padded width n) (by omega) (.inr stop)
  have places : ((padded width n).toList ++ rest).length - rest.length = width := by
    rw [List.length_append, length]
    omega
  have left : rest.dropWhile Char.isDigit = rest := by
    cases rest with
    | nil => rfl
    | cons c rest =>
      have other : c.isDigit = false := stop c rfl
      simp [other]
  refine bind_eq_ok_iff.2 ⟨_, digits, ?_⟩
  simp only [places, left]
  rfl

theorem fraction_fractionText {nanos : Nat} (small : nanos < perSecond) (rest : List Char) :
    fraction ((fractionText nanos).toList ++ 'Z' :: rest) = .ok (nanos, 'Z' :: rest) := by
  have stop : NoDigit ('Z' :: rest) := noDigit_cons (by decide) rest
  unfold perSecond at small
  unfold fractionText
  split
  · next zero => simp [zero, fraction]
  · split
    · next thousands =>
      have read :=
        fraction_padded (n := nanos / 1000000) (by decide : 0 < 3) (by decide) (by omega) stop
      have whole : nanos / 1000000 * Decimal.tenTo (9 - 3) = nanos := by
        change nanos / 1000000 * 1000000 = nanos
        omega
      rw [whole] at read
      simpa using read
    · split
      · next millions =>
        have read :=
          fraction_padded (n := nanos / 1000) (by decide : 0 < 6) (by decide) (by omega) stop
        have whole : nanos / 1000 * Decimal.tenTo (9 - 6) = nanos := by
          change nanos / 1000 * 1000 = nanos
          omega
        rw [whole] at read
        simpa using read
      · have read := fraction_padded (n := nanos) (by decide : 0 < 9) (by decide) (by omega) stop
        have whole : nanos * Decimal.tenTo (9 - 9) = nanos := Nat.mul_one nanos
        rw [whole] at read
        simpa using read

/-- The date and time of day of an instant in universal time, a leap second as second sixty. -/
def parts (t : Instant) : Parts where
  date := dateOfDay t.day
  hour := t.secondOfDay / 3600
  minute := t.secondOfDay / 60 % 60
  second := t.secondOfDay % 60 + t.nano / perSecond
  nano := t.nano % perSecond
  offset := 0

theorem secondOfDay_lt (t : Instant) : t.secondOfDay < 86400 := by
  unfold secondOfDay
  omega

theorem toList_print (t : Instant) : t.print.toList =
    (yearText t.parts.date.year).toList ++ '-' :: ((padded 2 t.parts.date.month).toList ++
      '-' :: ((padded 2 t.parts.date.day).toList ++ 'T' :: ((padded 2 t.parts.hour).toList ++
        ':' :: ((padded 2 t.parts.minute).toList ++ ':' :: ((padded 2 t.parts.second).toList ++
          ((fractionText t.parts.nano).toList ++ ['Z'])))))) := by
  simp [print, localText, parts]

theorem parts_second_le {t : Instant} (h : t.Spelled) : t.parts.second ≤ 60 := by
  have nano := h.nano
  simp only [parts, perSecond] at nano ⊢
  omega

theorem Spelled.readParts_print {t : Instant} (h : t.Spelled) :
    readParts t.print.toList = .ok t.parts := by
  obtain ⟨low, high, firstMonth, lastMonth, firstDay, lastDay⟩ :=
    Date.bounds_of_exists (d := t.parts.date) h.dated
  have short := secondOfDay_lt t
  have hour : t.parts.hour ≤ 23 := by
    simp only [parts]
    omega
  have minute : t.parts.minute ≤ 59 := by
    simp only [parts]
    omega
  have second := parts_second_le h
  have small : t.parts.nano < perSecond := Nat.mod_lt _ (by decide)
  rw [toList_print, readParts]
  have stop := noDigit_cons (by decide : '-'.isDigit = false)
  refine bind_eq_ok_iff.2 ⟨_, signedYear_yearText (by omega) (by omega) (stop _), ?_⟩
  refine bind_eq_ok_iff.2 ⟨_, expect_cons (by decide), ?_⟩
  refine bind_eq_ok_iff.2 ⟨_, bounded_padded firstMonth lastMonth (by omega) _, ?_⟩
  refine bind_eq_ok_iff.2 ⟨_, expect_cons (by decide), ?_⟩
  refine bind_eq_ok_iff.2 ⟨_, bounded_padded firstDay lastDay (by omega) _, ?_⟩
  refine bind_eq_ok_iff.2 ⟨_, rfl, ?_⟩
  refine bind_eq_ok_iff.2 ⟨_, bounded_padded (Nat.zero_le _) hour (by omega) _, ?_⟩
  refine bind_eq_ok_iff.2 ⟨_, expect_cons (by decide), ?_⟩
  refine bind_eq_ok_iff.2 ⟨_, bounded_padded (Nat.zero_le _) minute (by omega) _, ?_⟩
  refine bind_eq_ok_iff.2 ⟨_, expect_cons (by decide), ?_⟩
  refine bind_eq_ok_iff.2 ⟨_, bounded_padded (Nat.zero_le _) second (by omega) _, ?_⟩
  refine bind_eq_ok_iff.2 ⟨_, fraction_fractionText small [], ?_⟩
  rfl

/-- The instant that parts name, whether or not it can be kept. -/
def Parts.moment (p : Parts) : Instant where
  second := p.date.dayNumber * 86400 +
    (p.hour * 3600 + p.minute * 60 + min p.second 59 : Nat) - p.offset
  nano := if p.second = 60 then perSecond + p.nano else p.nano

theorem Parts.toInstant_eq_ok_iff {p : Parts} {t : Instant} : p.toInstant = .ok t ↔
    p.date.exists = true ∧ p.offset.natAbs < 86400 ∧
      (dateOfDay p.moment.day).exists = true ∧ p.moment = t := by
  change (if !p.date.exists then (.error .outOfRange : Except Fault Instant)
    else if 86400 ≤ p.offset.natAbs then .error .outOfRange
    else if (dateOfDay p.moment.day).exists then .ok p.moment else .error .impossible) = _ ↔ _
  by_cases dated : p.date.exists = true
  · by_cases near : 86400 ≤ p.offset.natAbs
    · simp [near, Nat.not_lt.2 near]
    · by_cases kept : (dateOfDay p.moment.day).exists = true
      · simp [dated, near, kept, Nat.not_le.1 near]
      · simp [dated, near, kept]
  · simp [dated]

theorem Spelled.moment_parts {t : Instant} (h : t.Spelled) : t.parts.moment = t := by
  have short := secondOfDay_lt t
  have bound := h.nano
  have split : t.day * 86400 + t.secondOfDay = t.second := by
    unfold day secondOfDay
    omega
  have leap : perSecond ≤ t.nano → t.secondOfDay % 60 = 59 := by
    intro inserted
    have last := h.leap inserted
    unfold secondOfDay
    omega
  have clock : t.parts.second = t.secondOfDay % 60 + t.nano / perSecond := rfl
  have place : t.parts.nano = t.nano % perSecond := rfl
  have second : t.parts.moment.second = t.second := by
    change (dateOfDay t.day).dayNumber * 86400 + (t.secondOfDay / 3600 * 3600 +
      t.secondOfDay / 60 % 60 * 60 + min t.parts.second 59 : Nat) - 0 = t.second
    rw [dayNumber_dateOfDay, ← split, clock]
    unfold perSecond at *
    omega
  have nano : t.parts.moment.nano = t.nano := by
    change (if t.parts.second = 60 then perSecond + t.parts.nano else t.parts.nano) = t.nano
    unfold perSecond at *
    by_cases inserted : 1000000000 ≤ t.nano
    · have last := leap inserted
      rw [if_pos (by omega)]
      omega
    · rw [if_neg (by omega)]
      omega
  calc t.parts.moment = ⟨t.second, t.nano⟩ := by rw [← second, ← nano]
    _ = t := rfl

/-- An instant is read back from what is written for it. -/
theorem Spelled.parse_print {t : Instant} (h : t.Spelled) : parse t.print = .ok t := by
  have near : (0 : Int).natAbs < 86400 := by decide
  have named : t.parts.toInstant = .ok t :=
    Parts.toInstant_eq_ok_iff.2 ⟨h.dated, near, h.moment_parts.symm ▸ h.dated, h.moment_parts⟩
  exact bind_eq_ok_iff.2 ⟨t.parts, h.readParts_print, named⟩

theorem exists_of_number {most n : Nat} {cs rest : List Char} (h : number most cs = .ok (n, rest)) :
    ∃ ds, cs = ds ++ rest ∧ ds.length ≤ most ∧ n < 10 ^ ds.length := by
  unfold number at h
  split at h
  · cases h
  · next c cs' =>
    split at h
    · cases h
      have front : ((c :: cs').take most).takeWhile Char.isDigit <+: c :: cs' :=
        (List.takeWhile_prefix _).trans (List.take_prefix _ _)
      refine ⟨_, (List.prefix_iff_eq_append.1 front).symm, ?_, ?_⟩
      · exact (List.takeWhile_prefix _).length_le.trans (List.length_take_le _ _)
      · exact digitsValue_lt (List.all_eq_true.1 List.all_takeWhile)
    · cases h

theorem fraction_lt {n : Nat} {cs rest : List Char} (h : fraction cs = .ok (n, rest)) :
    n < perSecond := by
  unfold fraction at h
  split at h
  · next cs' =>
    rcases bind_eq_ok_iff.1 h with ⟨⟨n', after⟩, read, h⟩
    rcases exists_of_number read with ⟨ds, rfl, short, fits⟩
    cases h
    have count : (ds ++ after).length - after.length = ds.length := by simp
    rw [count]
    calc n' * 10 ^ (9 - ds.length)
        < 10 ^ ds.length * 10 ^ (9 - ds.length) :=
          Nat.mul_lt_mul_of_pos_right fits (Nat.pow_pos (by decide))
      _ = 10 ^ 9 := by rw [← Nat.pow_add, Nat.add_sub_cancel' short]
  · cases h
    decide

theorem unsignedOffset_mod {n : Nat} {cs rest : List Char}
    (h : unsignedOffset cs = .ok (n, rest)) : n % 60 = 0 := by
  rcases bind_eq_ok_iff.1 h with ⟨⟨hours, cs'⟩, -, h⟩
  rcases bind_eq_ok_iff.1 h with ⟨⟨minutes, cs''⟩, -, h⟩
  dsimp only at h
  split at h
  · cases h
    omega
  · cases h

theorem offset_mod {seconds : Int} {cs rest : List Char} (h : offset cs = .ok (seconds, rest)) :
    seconds % 60 = 0 := by
  unfold offset at h
  split at h
  · cases h
    rfl
  · split at h
    · cases h
    · split at h
      · cases h
        rfl
      · split at h
        · rcases bind_eq_ok_iff.1 h with ⟨⟨n, rest'⟩, read, h⟩
          cases h
          have minutes := unsignedOffset_mod read
          omega
        · split at h
          · rcases bind_eq_ok_iff.1 h with ⟨⟨n, rest'⟩, read, h⟩
            cases h
            have minutes := unsignedOffset_mod read
            omega
          · cases h

theorem bounds_of_readParts {cs : List Char} {p : Parts} (h : readParts cs = .ok p) :
    p.nano < perSecond ∧ p.offset % 60 = 0 := by
  obtain ⟨⟨year, _⟩, -, h⟩ := bind_eq_ok_iff.1 h
  obtain ⟨_, -, h⟩ := bind_eq_ok_iff.1 h
  obtain ⟨⟨month, _⟩, -, h⟩ := bind_eq_ok_iff.1 h
  obtain ⟨_, -, h⟩ := bind_eq_ok_iff.1 h
  obtain ⟨⟨day, _⟩, -, h⟩ := bind_eq_ok_iff.1 h
  obtain ⟨_, -, h⟩ := bind_eq_ok_iff.1 h
  obtain ⟨⟨hour, _⟩, -, h⟩ := bind_eq_ok_iff.1 h
  obtain ⟨_, -, h⟩ := bind_eq_ok_iff.1 h
  obtain ⟨⟨minute, _⟩, -, h⟩ := bind_eq_ok_iff.1 h
  obtain ⟨_, -, h⟩ := bind_eq_ok_iff.1 h
  obtain ⟨⟨second, _⟩, -, h⟩ := bind_eq_ok_iff.1 h
  obtain ⟨⟨nano, _⟩, places, h⟩ := bind_eq_ok_iff.1 h
  obtain ⟨⟨seconds, _⟩, zone, h⟩ := bind_eq_ok_iff.1 h
  dsimp only at h
  split at h
  · cases h
    exact ⟨fraction_lt places, offset_mod zone⟩
  · cases h

/-- What parts within these bounds name is written with second sixty only where it is one. -/
theorem Parts.spelled_of_toInstant {p : Parts} (small : p.nano < perSecond)
    (minutes : p.offset % 60 = 0) {t : Instant} (h : p.toInstant = .ok t) : t.Spelled := by
  obtain ⟨-, -, dated, rfl⟩ := toInstant_eq_ok_iff.1 h
  have nano : p.moment.nano = if p.second = 60 then perSecond + p.nano else p.nano := rfl
  have second : p.moment.second = p.date.dayNumber * 86400 +
    (p.hour * 3600 + p.minute * 60 + min p.second 59 : Nat) - p.offset := rfl
  unfold perSecond at small nano
  constructor
  case dated => exact dated
  case nano =>
    unfold perSecond
    split at nano <;> omega
  case leap =>
    intro inserted
    unfold perSecond at inserted
    have sixty : p.second = 60 := by
      by_contra other
      rw [if_neg other] at nano
      omega
    omega

/-- An instant that a text spells is read back from what is written for it. -/
theorem parse_print_of_parse {s : String} {t : Instant} (h : parse s = .ok t) :
    parse t.print = .ok t := by
  rcases bind_eq_ok_iff.1 h with ⟨p, read, named⟩
  obtain ⟨small, minutes⟩ := bounds_of_readParts read
  exact (Parts.spelled_of_toInstant small minutes named).parse_print

end Credence.Instant
