import OpenNtrip.Gnss.Nmea

/-!
# One corrupted byte

No accepted line is one byte away from another (`corrupted_rejected`): a byte of the body changes
the checksum, an asterisk or a checksum digit that is replaced leaves no trailer or another
checksum, and white space for the dollar sign could only leave a shorter sentence with the same
checksum, for which the address has no room.
-/

namespace OpenNtrip.Nmea

/-! ## The checksum of a changed body -/

/-- Changing one character changes the checksum as it changes the character. -/
theorem checksum_set {body : Text} {i : Nat} {b : Char} (hi : i < body.length)
    (ha : body[i].toNat < 0x80) (hb : b.toNat < 0x80) :
    checksum (body.set i b) ^^^ UInt8.ofNat body[i].toNat =
      checksum body ^^^ UInt8.ofNat b.toNat := by
  have hset : body.set i b = body.take i ++ ([b] ++ body.drop (i + 1)) :=
    List.set_eq_take_append_cons_drop ▸ if_pos hi
  have hbody : checksum body =
      checksum (body.take i) ^^^ (UInt8.ofNat body[i].toNat ^^^ checksum (body.drop (i + 1))) := by
    rw [← checksum_char ha, ← checksum_append, ← checksum_append, List.singleton_append,
      List.getElem_cons_drop, List.take_append_drop]
  rw [hset, hbody, checksum_append, checksum_append, checksum_char hb]
  simp only [UInt8.xor_assoc, UInt8.xor_right_inj]
  rw [UInt8.xor_comm (checksum (body.drop (i + 1))) (UInt8.ofNat body[i].toNat),
    UInt8.xor_comm (checksum (body.drop (i + 1))) (UInt8.ofNat b.toNat), ← UInt8.xor_assoc,
    ← UInt8.xor_assoc, UInt8.xor_comm (UInt8.ofNat b.toNat)]

theorem byte_of_char_injective {a b : Char} (ha : a.toNat < 0x80) (hb : b.toNat < 0x80)
    (h : UInt8.ofNat a.toNat = UInt8.ofNat b.toNat) : a = b := by
  have hnat := congrArg UInt8.toNat h
  rw [UInt8.toNat_ofNat', UInt8.toNat_ofNat', Nat.mod_eq_of_lt (by omega),
    Nat.mod_eq_of_lt (by omega)] at hnat
  rw [← Char.ofNat_toNat a, hnat, Char.ofNat_toNat]

/-- A changed character of the body is noticed. -/
theorem checksum_set_ne {body : Text} {i : Nat} {b : Char} (hi : i < body.length)
    (ha : body[i].toNat < 0x80) (hb : b.toNat < 0x80) (hne : body[i] ≠ b) :
    checksum (body.set i b) ≠ checksum body := by
  intro heq
  have hset := checksum_set hi ha hb
  rw [heq, UInt8.xor_right_inj] at hset
  exact hne (byte_of_char_injective ha hb hset)

/-! ## Delimiters -/

/-- Texts that end in three characters each. -/
theorem append_three_inj {first second : Text} {a b c d e f : Char}
    (h : first ++ [a, b, c] = second ++ [d, e, f]) :
    first = second ∧ a = d ∧ b = e ∧ c = f := by
  obtain ⟨hfirst, hlast⟩ := List.append_inj' h rfl
  simp only [List.cons.injEq, and_true] at hlast
  exact ⟨hfirst, hlast⟩

/-- A checksum digit is determined by its character. -/
theorem ck_char_injective {a b : UInt8} (ha : isCkDigit a = true) (hb : isCkDigit b = true)
    (h : Char.ofNat a.toNat = Char.ofNat b.toNat) : a = b := by
  have hleft := ck_digit_bounds ha
  have hright := ck_digit_bounds hb
  have hnat := congrArg Char.toNat h
  rw [char_of_nat (n := a.toNat) (by omega), char_of_nat (n := b.toNat) (by omega)] at hnat
  exact UInt8.toNat_inj.mp hnat

variable {Single Double : Type} [FloatType Single] [FloatType Double]

/-- An accepted line ends in its trailer. -/
theorem parse_ok_trailer {line body : Text} {a b c : Char} {x : Sentence Single Double}
    (htrim : line.trim = '$' :: (body ++ [a, b, c])) (hok : parse line = .ok x) :
    ∃ hi lo, a = '*' ∧ b = Char.ofNat hi.toNat ∧ c = Char.ofNat lo.toNat ∧
      Framed line.trim body hi lo := by
  obtain ⟨body', hi, lo, hframed, _⟩ := parse_eq_ok.mp hok
  have htext := hframed.text
  rw [htrim] at htext
  obtain ⟨rfl, ha, hb, hc⟩ := append_three_inj (List.cons.inj htext).2
  exact ⟨hi, lo, ha, hb, hc, hframed⟩

/-- The same for a line that is trimmed because its last character is not white space. -/
theorem parse_ok_dollar {body : Text} {a b c : Char} {x : Sentence Single Double}
    (hc : isWhitespace c = false) (hok : parse ('$' :: (body ++ [a, b, c])) = .ok x) :
    ∃ hi lo, a = '*' ∧ b = Char.ofNat hi.toNat ∧ c = Char.ofNat lo.toNat ∧
      Framed ('$' :: (body ++ [a, b, c])) body hi lo := by
  have htrim : Text.trim ('$' :: (body ++ [a, b, c])) = '$' :: (body ++ [a, b, c]) := by
    have happend : body ++ [a, b, c] = body ++ [a, b] ++ [c] := by simp
    rw [happend]
    exact trimmed_between (by decide) hc _
  have htrailer := parse_ok_trailer htrim hok
  rwa [htrim] at htrailer

/-! ## The five places -/

section

variable {s body : Text} {hi lo : UInt8} (h : Framed s body hi lo)
include h

theorem body_rejected {i : Nat} {b : Char} (hlt : i < body.length) (ha : body[i].toNat < 0x80)
    (hb : b.toNat < 0x80) (hne : body[i] ≠ b) (x : Sentence Single Double) :
    parse ('$' :: (body.set i b ++ trailer hi lo)) ≠ .ok x := by
  intro hok
  obtain ⟨hi', lo', _, hhi, hlo, hframed⟩ :=
    parse_ok_dollar (ck_char_not_whitespace h.lo_digit) hok
  have hhi' := ck_char_injective h.hi_digit hframed.hi_digit hhi
  have hlo' := ck_char_injective h.lo_digit hframed.lo_digit hlo
  subst hhi'
  subst hlo'
  exact checksum_set_ne hlt ha hb hne (hframed.checks.trans h.checks.symm)

theorem star_rejected {b : Char} (hne : '*' ≠ b) (x : Sentence Single Double) :
    parse ('$' :: (body ++ [b, Char.ofNat hi.toNat, Char.ofNat lo.toNat])) ≠ .ok x := by
  intro hok
  obtain ⟨_, _, hstar, _⟩ := parse_ok_dollar (ck_char_not_whitespace h.lo_digit) hok
  exact hne hstar.symm

theorem hi_rejected {b : Char} (hne : Char.ofNat hi.toNat ≠ b) (x : Sentence Single Double) :
    parse ('$' :: (body ++ ['*', b, Char.ofNat lo.toNat])) ≠ .ok x := by
  intro hok
  obtain ⟨hi', lo', _, hhi, hlo, hframed⟩ :=
    parse_ok_dollar (ck_char_not_whitespace h.lo_digit) hok
  obtain ⟨rfl, _⟩ := ck_digits_unique h.hi_digit h.lo_digit hframed.hi_digit hframed.lo_digit
    (h.checks.symm.trans hframed.checks)
  exact hne hhi.symm

/-- White space for the last digit is trimmed, and leaves one digit only. -/
theorem lo_rejected {b : Char} (hne : Char.ofNat lo.toNat ≠ b) (x : Sentence Single Double) :
    parse ('$' :: (body ++ ['*', Char.ofNat hi.toNat, b])) ≠ .ok x := by
  intro hok
  cases hb : isWhitespace b with
  | false =>
      obtain ⟨hi', lo', _, hhi, hlo, hframed⟩ := parse_ok_dollar hb hok
      obtain ⟨_, rfl⟩ := ck_digits_unique h.hi_digit h.lo_digit hframed.hi_digit hframed.lo_digit
        (h.checks.symm.trans hframed.checks)
      exact hne hlo.symm
  | true =>
      have htrim : Text.trim ('$' :: (body ++ ['*', Char.ofNat hi.toNat, b])) =
          '$' :: (body ++ ['*'] ++ [Char.ofNat hi.toNat]) := by
        have happend : '$' :: (body ++ ['*', Char.ofNat hi.toNat, b]) =
            '$' :: (body ++ ['*'] ++ [Char.ofNat hi.toNat]) ++ [b] := by simp
        rw [happend, Text.trim_concat_whitespace hb]
        exact trimmed_between (by decide) (ck_char_not_whitespace h.hi_digit) _
      obtain ⟨body', hi', lo', hframed, _⟩ := parse_eq_ok.mp hok
      have htext := hframed.text
      rw [htrim] at htext
      have htail : body ++ ['*', Char.ofNat hi.toNat] =
          body' ++ ['*'] ++ [Char.ofNat hi'.toNat, Char.ofNat lo'.toNat] := by
        simpa [trailer] using htext
      have hstar := (List.cons.inj (List.append_inj' htail rfl).2).1
      exact star_not_mem_ck_digits hframed.hi_digit hframed.lo_digit (hstar ▸ List.mem_cons_self)

theorem trailer_rejected {k : Nat} (hk : k < (trailer hi lo).length) {b : Char}
    (hne : (trailer hi lo)[k] ≠ b) (x : Sentence Single Double) :
    parse ('$' :: (body ++ (trailer hi lo).set k b)) ≠ .ok x := by
  rcases k with _ | _ | _ | k
  · exact star_rejected h hne x
  · exact hi_rejected h hne x
  · exact lo_rejected h hne x
  · have htrailer : (trailer hi lo).length = 3 := rfl
    omega

omit h in
/-- What is before a comma belongs to the first field. -/
theorem first_field_append {c : Char} {first : Text} (hfirst : c ∉ first) (rest : Text) :
    field ((first ++ rest).splitOn c) 0 = first ++ field (rest.splitOn c) 0 := by
  induction first with
  | nil => rfl
  | cons d first ih =>
      have hd : ¬ (d == c) = true := fun heq => hfirst (beq_iff_eq.mp heq ▸ List.mem_cons_self)
      have hrest := ih fun hmem => hfirst (List.mem_cons_of_mem _ hmem)
      rw [List.cons_append, List.splitOn_cons_eq_if_modifyHead, if_neg hd, List.cons_append,
        ← hrest]
      cases hsplit : (first ++ rest).splitOn c with
      | nil => exact absurd hsplit (List.splitOn_ne_nil _ _)
      | cons part parts => rfl

omit h in
/-- What is left of a sentence without the white space at the start. -/
theorem kept_trimmed (hlo : isCkDigit lo = true) :
    Text.Trimmed (body.dropWhile isWhitespace ++ trailer hi lo) := by
  have hhead := List.head?_dropWhile_not isWhitespace body
  cases hkept : body.dropWhile isWhitespace with
  | nil =>
      show Text.Trimmed ('*' :: ([Char.ofNat hi.toNat] ++ [Char.ofNat lo.toNat]))
      exact trimmed_between (by decide) (ck_char_not_whitespace hlo) _
  | cons d more =>
      rw [hkept] at hhead
      rw [List.cons_append, append_trailer]
      exact trimmed_between hhead (ck_char_not_whitespace hlo) _

omit h in
/-- No address has room for white space and a dollar sign in front of another address that leaves
the checksum alone. -/
theorem hidden_sentence {space rest s s' : Text} {x x' : Sentence Single Double}
    (hspace : ∀ c ∈ space, isWhitespace c = true) (hascii : ∀ c ∈ space, c.toNat < 0x80)
    (houter : interpret ((space ++ '$' :: rest).splitOn ',') s = .ok x)
    (hinner : interpret (rest.splitOn ',') s' = .ok x')
    (hcheck : checksum (space ++ '$' :: rest) = checksum rest) : False := by
  have hcomma : ',' ∉ space ++ ['$'] := by
    intro hmem
    rcases List.mem_append.mp hmem with hmem | hmem
    · exact absurd (hspace ',' hmem) (by decide)
    · exact absurd hmem (by decide)
  rw [List.append_cons] at houter hcheck
  have hfirst := first_field_append hcomma rest
  have hlong := (interpret_ok_iff.mp ⟨x, houter⟩).2
  have hshort := (interpret_ok_iff.mp ⟨x', hinner⟩).1
  rw [hfirst, Text.to_bytes_append, Text.to_bytes_append, List.length_append,
    List.length_append] at hlong
  have hdollar : (Text.toBytes ['$']).length = 1 := rfl
  have hroom : space.length ≤ 1 := by
    have hbytes := Text.length_le_to_bytes space
    omega
  have hzero : checksum (space ++ ['$']) = 0 := by
    rw [checksum_append] at hcheck
    exact (UInt8.xor_left_inj (checksum rest)).mp (hcheck.trans UInt8.zero_xor.symm)
  cases space with
  | nil => exact absurd hzero (by decide)
  | cons w more =>
      have hmore : more = [] := by
        rw [List.length_cons] at hroom
        exact List.length_eq_zero_iff.mp (by omega)
      subst hmore
      have hw := hascii w List.mem_cons_self
      rw [checksum_append, UInt8.xor_eq_zero_iff, checksum_char hw,
        checksum_char (c := '$') (by decide)] at hzero
      have hdollar : w = '$' := byte_of_char_injective hw (by decide) hzero
      rw [hdollar] at hspace
      exact absurd (hspace '$' List.mem_cons_self) (by decide)

/-- White space for the dollar sign is trimmed, and so is what follows up to another dollar sign. -/
theorem dollar_rejected (hbody : ∀ c ∈ body, c.toNat < 0x80) {x₀ : Sentence Single Double}
    (hinterpret : interpret (body.splitOn ',') s = .ok x₀) {b : Char} (hne : '$' ≠ b)
    (x : Sentence Single Double) : parse (b :: (body ++ trailer hi lo)) ≠ .ok x := by
  intro hok
  obtain ⟨body', hi', lo', hframed, hinner⟩ := parse_eq_ok.mp hok
  cases hb : isWhitespace b with
  | false =>
      have htrimmed : Text.Trimmed (b :: (body ++ trailer hi lo)) := by
        rw [append_trailer]
        exact trimmed_between hb (ck_char_not_whitespace h.lo_digit) _
      have htext := hframed.text
      rw [htrimmed] at htext
      exact hne (List.cons.inj htext).1.symm
  | true =>
      have htrim : Text.trim (b :: (body ++ trailer hi lo)) =
          body.dropWhile isWhitespace ++ trailer hi lo := by
        have hspace : ∀ c ∈ b :: body.takeWhile isWhitespace, isWhitespace c = true :=
          List.forall_mem_cons.mpr ⟨hb, fun c hc => List.mem_takeWhile_imp hc⟩
        have happend : b :: (body ++ trailer hi lo) =
            b :: body.takeWhile isWhitespace ++ (body.dropWhile isWhitespace ++ trailer hi lo) := by
          rw [List.cons_append, ← List.append_assoc, List.takeWhile_append_dropWhile]
        rw [happend, Text.trim_space_append hspace]
        exact kept_trimmed h.lo_digit
      have htext := hframed.text
      rw [htrim] at htext
      rw [trailer, trailer, ← List.cons_append] at htext
      obtain ⟨hkept, _, hhi, hlo⟩ := append_three_inj htext
      have hhi' := ck_char_injective h.hi_digit hframed.hi_digit hhi
      have hlo' := ck_char_injective h.lo_digit hframed.lo_digit hlo
      subst hhi'
      subst hlo'
      have hsplit : body.takeWhile isWhitespace ++ '$' :: body' = body := by
        rw [← hkept, List.takeWhile_append_dropWhile]
      rw [← hsplit] at hinterpret
      refine hidden_sentence (fun c hc => List.mem_takeWhile_imp hc)
        (fun c hc => hbody c (List.takeWhile_subset _ hc)) hinterpret hinner ?_
      rw [hsplit, h.checks, hframed.checks]

end

/-- An accepted line in which one character is replaced by another is rejected, wherever it is. -/
theorem corrupted_rejected {text : Text} (hascii : ∀ c ∈ text, c.toNat < 0x80)
    (htrimmed : text.Trimmed) {x : Sentence Single Double} (haccepted : parse text = .ok x)
    {i : Nat} {b : Char} (hlt : i < text.length) (hb : b.toNat < 0x80) (hne : text[i] ≠ b) :
    ∃ e, (parse (text.set i b) : Except NmeaError (Sentence Single Double)) = .error e := by
  obtain ⟨body, hi, lo, hframed, hinterpret⟩ := parse_eq_ok.mp haccepted
  rw [htrimmed] at hframed hinterpret
  have hrejected : ∀ x', parse (text.set i b) ≠ .ok (x' : Sentence Single Double) := by
    obtain rfl := hframed.text
    cases i with
    | zero =>
        have hbody : ∀ c ∈ body, c.toNat < 0x80 := fun c hc =>
          hascii c (List.mem_cons_of_mem _ (List.mem_append_left _ hc))
        exact dollar_rejected hframed hbody hinterpret hne
    | succ j =>
        rw [List.set_cons_succ, List.set_append]
        rw [List.length_cons, List.length_append] at hlt
        rw [List.getElem_cons_succ] at hne
        by_cases hj : j < body.length
        · rw [List.getElem_append_left hj] at hne
          have ha : body[j].toNat < 0x80 :=
            hascii _ (List.mem_cons_of_mem _ (List.mem_append_left _ (List.getElem_mem hj)))
          rw [if_pos hj]
          exact body_rejected hframed hj ha hb hne
        · rw [List.getElem_append_right (by omega)] at hne
          rw [if_neg hj]
          exact trailer_rejected hframed _ hne
  cases hparse : (parse (text.set i b) : Except NmeaError (Sentence Single Double)) with
  | ok x' => exact absurd hparse (hrejected x')
  | error e => exact ⟨e, rfl⟩

/-- A sentence without fields, and the last digit of its checksum replaced. -/
theorem corrupted_rejected_sentence :
    ∃ e, (parse ("$GPGGA*56".toList.set 8 '7') : Except NmeaError (Sentence Rat Rat)) =
      .error e := by
  have hall : (("$GPGGA*56".toList : Text).all fun c => decide (c.toNat < 0x80)) = true := by
    decide
  have hascii : ∀ c ∈ ("$GPGGA*56".toList : Text), c.toNat < 0x80 :=
    fun c hc => of_decide_eq_true (List.all_eq_true.mp hall c hc)
  have htrimmed : Text.Trimmed "$GPGGA*56".toList := by
    rw [Text.Trimmed]
    decide
  have haccepted : (parse "$GPGGA*56".toList : Except NmeaError (Sentence Rat Rat)) =
      .ok (.gga (parseGga ["GPGGA".toList] "$GPGGA*56".toList)) := rfl
  exact corrupted_rejected hascii htrimmed haccepted (by decide) (by decide) (by decide)

end OpenNtrip.Nmea
