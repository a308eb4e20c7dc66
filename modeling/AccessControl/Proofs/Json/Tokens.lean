import AccessControl.Proofs.Json.Grammar

/-! # Blanks, words, quoted texts and numbers are scanned

The parts of the scanner that do not go into a value take exactly what the grammar allows for them:
they take what is written, whatever follows that does not go on with it (`Stops`), and all that they
take is written so.
-/
namespace AccessControl.Reading

variable {m : Nat} {c : Char} {x : Option Char} {s b r rest : Source} {v : Reading}

/-! ## Blanks -/

theorem skipBlanks_cons (h : IsBlank x) : skipBlanks (x :: s) = skipBlanks s := by
  rcases h with rfl | rfl | rfl | rfl <;> rfl

theorem skipBlanks_of_not (h : ¬IsBlank x) : skipBlanks (x :: s) = x :: s := by
  unfold skipBlanks
  split
  · exact absurd (.inl (List.cons.inj ‹_›).1) h
  · exact absurd (.inr (.inl (List.cons.inj ‹_›).1)) h
  · exact absurd (.inr (.inr (.inl (List.cons.inj ‹_›).1))) h
  · exact absurd (.inr (.inr (.inr (List.cons.inj ‹_›).1))) h
  · rfl

theorem Blanks.skip (h : Blanks b) : skipBlanks (b ++ s) = skipBlanks s := by
  induction b with
  | nil => rfl
  | cons x b ih =>
    obtain ⟨hx, hb⟩ := List.forall_mem_cons.mp h
    rw [List.cons_append, skipBlanks_cons hx, ih hb]

/-- Only blanks are skipped. -/
theorem exists_skipped (s : Source) : ∃ b, Blanks b ∧ s = b ++ skipBlanks s := by
  induction s with
  | nil => exact ⟨[], .nil, rfl⟩
  | cons x s ih =>
    by_cases hx : IsBlank x
    · obtain ⟨b, hb, hs⟩ := ih
      refine ⟨x :: b, List.forall_mem_cons.mpr ⟨hx, hb⟩, ?_⟩
      rw [skipBlanks_cons hx, List.cons_append, ← hs]
    · exact ⟨[], .nil, (skipBlanks_of_not hx).symm⟩

@[simp] theorem skipBlanks_skipBlanks (s : Source) : skipBlanks (skipBlanks s) = skipBlanks s := by
  obtain ⟨b, hb, hs⟩ := exists_skipped s
  conv_rhs => rw [hs, hb.skip]

/-! ## Words -/

theorem after?_eq_some_iff {w : List Char} : after? w s = some r ↔ s = w.map some ++ r := by
  induction w generalizing s with
  | nil => exact ⟨fun h => Option.some.inj h, fun h => congrArg some h⟩
  | cons c w ih =>
    cases s with
    | nil => exact iff_of_false nofun nofun
    | cons x s =>
      cases x with
      | none => exact iff_of_false nofun nofun
      | some c' =>
        rw [after?, List.map_cons, List.cons_append, List.cons.injEq, Option.some.injEq, ← ih,
          eq_comm (a := c')]
        split
        · rename_i hc
          exact ⟨fun h => ⟨hc, h⟩, And.right⟩
        · rename_i hc
          exact iff_of_false nofun fun h => hc h.1

theorem word_eq_iff {w : List Char} {v' : Reading} :
    word v' w s = (v, some r) ↔ v = v' ∧ s = w.map some ++ r := by
  rw [word, ← after?_eq_some_iff]
  cases after? w s with
  | none =>
    refine iff_of_false (fun h => ?_) (fun h => nomatch h.2)
    cases (Prod.mk.inj h).2
  | some r' =>
    show (v', some r') = (v, some r) ↔ _
    rw [Prod.mk.injEq, eq_comm (a := v')]

/-! ## Quoted texts -/

theorem Piece.Written.pieces? {p : Piece} (h : p.Written s) :
    Reading.pieces? (s ++ rest) = (Reading.pieces? rest).map fun (ps, r) => (p :: ps, r) := by
  cases h with
  | @plain c hlow hquote hslash =>
    rw [List.cons_append, List.nil_append, Reading.pieces?]
    · rw [if_neg (not_or.mpr ⟨hlow, hslash⟩)]
    all_goals simp_all
  | @escaped e c h =>
    have hnumber : e ≠ 'u' := by
      rintro rfl
      cases h
    simp only [List.cons_append, List.nil_append]
    rw [Reading.pieces?]
    · rw [h]
    all_goals simp_all
  | numbered h =>
    simp only [List.cons_append, List.nil_append]
    rw [Reading.pieces?, h]
  | stray => rfl

/-- **The inside of a quoted text is scanned into its parts.** -/
theorem pieces?_of_quoted {ps : List Piece} (h : Quoted ps s) :
    pieces? (s ++ rest) = some (ps, rest) := by
  induction h with
  | close => rfl
  | part h _ ih =>
    rw [List.append_assoc, h.pieces?, ih]
    rfl

/-- A part that has been taken comes before those that are taken then. -/
theorem Piece.Written.quoted {p : Piece} {cs : Source} (hp : p.Written cs)
    (ih : ∀ {ps r}, Reading.pieces? s = some (ps, r) → ∃ cs, s = cs ++ r ∧ Quoted ps cs)
    {ps : List Piece}
    (h : ((Reading.pieces? s).map fun (ps, r) => (p :: ps, r)) = some (ps, r)) :
    ∃ cs', cs ++ s = cs' ++ r ∧ Quoted ps cs' := by
  obtain ⟨⟨ps', r'⟩, htail, heq⟩ := Option.map_eq_some_iff.mp h
  obtain ⟨rfl, rfl⟩ := Prod.mk.inj heq
  obtain ⟨cs', rfl, hquoted⟩ := ih htail
  exact ⟨cs ++ cs', (List.append_assoc ..).symm, .part hp hquoted⟩

/-- **What is scanned as parts is a quoted text of these parts.** -/
theorem quoted_of_pieces? {ps : List Piece} (h : pieces? s = some (ps, r)) :
    ∃ cs, s = cs ++ r ∧ Quoted ps cs := by
  fun_induction pieces? s generalizing ps r with
  | case1 => cases h
  | case2 s ih => exact Piece.Written.stray.quoted ih h
  | case3 s =>
    obtain ⟨rfl, rfl⟩ := Prod.mk.inj (Option.some.inj h)
    exact ⟨[some '"'], rfl, .close⟩
  | case4 a b c d s n hn ih => exact (Piece.Written.numbered hn).quoted ih h
  | case5 => cases h
  | case6 e s _ c hc ih => exact (Piece.Written.escaped hc).quoted ih h
  | case7 => cases h
  | case8 => cases h
  | case9 c s hquote _ _ hplain ih =>
    obtain ⟨hlow, hslash⟩ := not_or.mp hplain
    exact (Piece.Written.plain hlow (fun heq => hquote heq) hslash).quoted ih h

/-! ## Numbers -/

/-- What follows a value ends it: the text is over, or a mark or a blank follows. -/
inductive Stops : Source → Prop where
  | nil : Stops []
  | comma (rest : Source) : Stops (some ',' :: rest)
  | bracket (rest : Source) : Stops (some ']' :: rest)
  | brace (rest : Source) : Stops (some '}' :: rest)
  | blank {y : Option Char} (hy : IsBlank y) (rest : Source) : Stops (y :: rest)

theorem Stops.append (hb : Blanks b) (h : Stops s) : Stops (b ++ s) := by
  cases b with
  | nil => exact h
  | cons x b => exact .blank (hb x List.mem_cons_self) _

theorem Stops.digits_eq (h : Stops rest) : digits rest = ([], rest) := by
  cases h with
  | blank hy rest => rcases hy with rfl | rfl | rfl | rfl <;> rfl
  | _ => rfl

theorem Stops.fraction?_eq (h : Stops rest) : fraction? rest = some (none, rest) := by
  cases h with
  | blank hy rest => rcases hy with rfl | rfl | rfl | rfl <;> rfl
  | _ => rfl

theorem Stops.exponent?_eq (h : Stops rest) : exponent? rest = some (none, rest) := by
  cases h with
  | blank hy rest => rcases hy with rfl | rfl | rfl | rfl <;> rfl
  | _ => rfl

variable {ds : List Nat} {fraction : Option (List Nat)} {exponent : Option Int} {negative : Bool}

theorem Digits.scan (h : Digits ds s) (hrest : digits rest = ([], rest)) :
    digits (s ++ rest) = (ds, rest) := by
  induction h with
  | nil => exact hrest
  | @cons d x ds s hx _ ih =>
    cases x with
    | none => cases hx
    | some c =>
      change Decimal.digit? c = some d at hx
      simp only [List.cons_append, digits, hx, ih]

/-- Only digits are taken for digits. -/
theorem digits_of_scan (h : digits s = (ds, r)) : ∃ cs, s = cs ++ r ∧ Digits ds cs := by
  fun_induction digits s generalizing ds with
  | case1 c s d hd ds' r' hscan ih =>
    obtain ⟨rfl, rfl⟩ := Prod.mk.inj h
    obtain ⟨cs, hs, hdigits⟩ := ih hscan
    exact ⟨some c :: cs, congrArg (some c :: ·) hs, .cons hd hdigits⟩
  | case2 c s hd =>
    obtain ⟨rfl, rfl⟩ := Prod.mk.inj h
    exact ⟨[], rfl, .nil⟩
  | case3 s _ =>
    obtain ⟨rfl, rfl⟩ := Prod.mk.inj h
    exact ⟨[], rfl, .nil⟩

theorem whole?_eq_some_iff : whole? s = some (ds, r) ↔ digits s = (ds, r) ∧ IsWhole ds := by
  rw [whole?]
  split
  · rename_i r' hscan
    rw [hscan]
    refine iff_of_false nofun ?_
    rintro ⟨heq, hne, -⟩
    exact hne (Prod.mk.inj heq).1.symm
  · rename_i d ds' r' hscan
    rw [hscan]
    refine iff_of_false nofun ?_
    rintro ⟨heq, -, hzero⟩
    exact hzero d ds' (Prod.mk.inj heq).1.symm
  · rename_i ds' r' hne hzero hscan
    rw [hscan, Option.some.injEq]
    refine ⟨fun heq => ⟨heq, ?_⟩, And.left⟩
    obtain ⟨rfl, rfl⟩ := Prod.mk.inj heq
    exact ⟨hne, hzero⟩

theorem Fraction.scan (h : Fraction fraction s) (hrest : digits rest = ([], rest))
    (hpoint : fraction? rest = some (none, rest)) :
    fraction? (s ++ rest) = some (fraction, rest) := by
  cases h with
  | absent => exact hpoint
  | @present ds s h hne =>
    rw [List.cons_append, fraction?, h.scan hrest]
    cases ds with
    | nil => exact absurd rfl hne
    | cons d ds => rfl

theorem fraction_of_scan (h : fraction? s = some (fraction, r)) :
    ∃ cs, s = cs ++ r ∧ Fraction fraction cs := by
  unfold fraction? at h
  split at h
  · rename_i s
    split at h
    · cases h
    · rename_i ds r' hne hscan
      obtain ⟨rfl, rfl⟩ := Prod.mk.inj (Option.some.inj h)
      obtain ⟨cs, rfl, hdigits⟩ := digits_of_scan hscan
      exact ⟨some '.' :: cs, rfl, .present hdigits hne⟩
  · obtain ⟨rfl, rfl⟩ := Prod.mk.inj (Option.some.inj h)
    exact ⟨[], rfl, .absent⟩

/-- The sign that an exponent has, and what follows it. -/
def signed : Source → Bool × Source
  | some '+' :: r => (false, r)
  | some '-' :: r => (true, r)
  | r => (false, r)

theorem exponent?_cons (hc : c = 'e' ∨ c = 'E') :
    exponent? (some c :: s) = match digits (signed s).2 with
      | ([], _) => none
      | (ds, r) => some (some (if (signed s).1 then -(value ds : Int) else value ds), r) := by
  show (if c = 'e' ∨ c = 'E' then _ else _) = _
  rw [if_pos hc]
  rfl

theorem Sign.signed_eq {sign : Source} (hsign : Sign negative sign) (h : Digits ds s)
    (hne : ds ≠ []) : signed (sign ++ (s ++ rest)) = (negative, s ++ rest) := by
  cases hsign with
  | plus => rfl
  | minus => rfl
  | none =>
    cases h with
    | nil => exact absurd rfl hne
    | @cons d x ds s hx _ =>
      -- A digit is no sign.
      rw [List.nil_append, List.cons_append]
      unfold signed
      split
      · obtain rfl := (List.cons.inj ‹_›).1
        cases hx
      · obtain rfl := (List.cons.inj ‹_›).1
        cases hx
      · rfl

theorem exists_sign (s : Source) : ∃ sign, Sign (signed s).1 sign ∧ s = sign ++ (signed s).2 := by
  unfold signed
  split
  · exact ⟨_, .plus, rfl⟩
  · exact ⟨_, .minus, rfl⟩
  · exact ⟨_, .none, rfl⟩

theorem Exponent.scan (h : Exponent exponent s) (hrest : Stops rest) :
    exponent? (s ++ rest) = some (exponent, rest) := by
  cases h with
  | absent => exact hrest.exponent?_eq
  | @present e negative sign s ds he hsign h hne =>
    rw [List.cons_append, List.append_assoc, exponent?_cons he, hsign.signed_eq h hne]
    dsimp only
    rw [h.scan hrest.digits_eq]
    cases ds with
    | nil => exact absurd rfl hne
    | cons d ds => rfl

theorem exponent_of_scan (h : exponent? s = some (exponent, r)) :
    ∃ cs, s = cs ++ r ∧ Exponent exponent cs := by
  have habsent : some (none, s) = some (exponent, r) →
      ∃ cs, s = cs ++ r ∧ Exponent exponent cs := by
    intro h
    obtain ⟨rfl, rfl⟩ := Prod.mk.inj (Option.some.inj h)
    exact ⟨[], rfl, .absent⟩
  cases s with
  | nil => exact habsent h
  | cons x s =>
    cases x with
    | none => exact habsent h
    | some c =>
      by_cases hc : c = 'e' ∨ c = 'E'
      · rw [exponent?_cons hc] at h
        obtain ⟨sign, hsign, hs⟩ := exists_sign s
        split at h
        · cases h
        · rename_i ds r' hne hscan
          obtain ⟨rfl, rfl⟩ := Prod.mk.inj (Option.some.inj h)
          obtain ⟨cs, htail, hdigits⟩ := digits_of_scan hscan
          refine ⟨some c :: (sign ++ cs), ?_, .present hc hsign hdigits hne⟩
          rw [List.cons_append, List.append_assoc, ← htail, ← hs]
      · change (if c = 'e' ∨ c = 'E' then _ else _) = _ at h
        rw [if_neg hc] at h
        exact habsent h

/-! A number is what its parts come to. -/

theorem le_foldl (ds : List Nat) (m : Nat) : m ≤ ds.foldl (fun n d => n * 10 + d) m := by
  induction ds generalizing m with
  | nil => exact Nat.le_refl m
  | cons d ds ih =>
    have hnext := ih (m * 10 + d)
    rw [List.foldl_cons]
    omega

/-- Digits are appended to the last as long as the number fits into sixty-four bits. -/
theorem append_of_le (h : ds.foldl (fun n d => n * 10 + d) m ≤ maxWord) :
    append m ds = (ds.foldl (fun n d => n * 10 + d) m, []) := by
  induction ds generalizing m with
  | nil => rfl
  | cons d ds ih =>
    rw [List.foldl_cons] at h ⊢
    rw [append, if_pos (Nat.le_trans (le_foldl ds _) h), ih h]

theorem append_snd_ne_nil (hm : m ≤ maxWord)
    (h : maxWord < ds.foldl (fun n d => n * 10 + d) m) : (append m ds).2 ≠ [] := by
  induction ds generalizing m with
  | nil => exact absurd h (Nat.not_lt.mpr hm)
  | cons d ds ih =>
    rw [append]
    split
    · rename_i hfits
      exact ih hfits h
    · exact List.cons_ne_nil _ _

/-- The parts of a number are scanned one after the other. -/
theorem number_eq {r₁ r₂ : Source} (hwhole : whole? s = some (ds, r₁))
    (hfraction : fraction? r₁ = some (fraction, r₂))
    (hexponent : exponent? r₂ = some (exponent, r)) :
    number negative s = (Numeral.reading ⟨negative, ds, fraction, exponent⟩, some r) := by
  simp only [number, hwhole, hfraction, hexponent, Option.bind_eq_bind, Option.bind_some]
  by_cases hint : Numeral.IsInt ⟨negative, ds, fraction, exponent⟩
  · rw [Numeral.reading, if_pos hint]
    obtain ⟨hf, he, hfits, hsign⟩ := hint
    obtain rfl : fraction = none := hf
    obtain rfl : exponent = none := he
    have happend : append 0 ds = (value ds, []) := append_of_le hfits
    have hzero : ¬(negative && value ds == 0) = true := by
      intro h
      obtain ⟨hnegative, hzero⟩ := Bool.and_eq_true_iff.mp h
      exact absurd (beq_iff_eq.mp hzero) (Nat.ne_of_gt (hsign hnegative))
    simp only [happend, if_neg hzero]
    rfl
  · rw [Numeral.reading, if_neg hint]
    cases fraction with
    | some f => rfl
    | none =>
      cases exponent with
      | some e => rfl
      | none =>
        cases hleft : (append 0 ds).2 with
        | cons d left =>
          simp only [Numeral.isFinite, hleft]
          rfl
        | nil =>
          -- Its digits fit, so it is the one whole number that is none: `-0`.
          have hfits : value ds ≤ maxWord := by
            by_contra h
            exact append_snd_ne_nil (Nat.zero_le _) (Nat.lt_of_not_le h) hleft
          have happend : append 0 ds = (value ds, []) := append_of_le hfits
          have hzero : negative = true ∧ value ds = 0 := by
            by_contra h
            exact hint ⟨rfl, rfl, hfits, fun hsign =>
              Nat.pos_of_ne_zero fun hvalue => h ⟨hsign, hvalue⟩⟩
          simp only [Numeral.isFinite, happend, hzero.1, hzero.2]
          rfl

theorem exists_parts_of_number (h : number negative s = (v, some r)) :
    ∃ ds r₁ fraction r₂ exponent, whole? s = some (ds, r₁) ∧ fraction? r₁ = some (fraction, r₂) ∧
      exponent? r₂ = some (exponent, r) ∧
      v = Numeral.reading ⟨negative, ds, fraction, exponent⟩ := by
  cases hwhole : whole? s with
  | none =>
    simp only [number, hwhole, Option.bind_eq_bind, Option.bind_none] at h
    cases h
  | some p =>
    obtain ⟨ds, r₁⟩ := p
    cases hfraction : fraction? r₁ with
    | none =>
      simp only [number, hwhole, hfraction, Option.bind_eq_bind, Option.bind_some,
        Option.bind_none] at h
      cases h
    | some p =>
      obtain ⟨fraction, r₂⟩ := p
      cases hexponent : exponent? r₂ with
      | none =>
        simp only [number, hwhole, hfraction, hexponent, Option.bind_eq_bind, Option.bind_some,
          Option.bind_none] at h
        cases h
      | some p =>
        obtain ⟨exponent, r₃⟩ := p
        rw [number_eq hwhole hfraction hexponent] at h
        obtain ⟨rfl, hr⟩ := Prod.mk.inj h
        obtain rfl := Option.some.inj hr
        exact ⟨ds, r₁, fraction, r₂, exponent, rfl, hfraction, hexponent, rfl⟩

/-- **What is written for a number is scanned as the number.** -/
theorem number_of_unsigned {n : Numeral} (h : n.Unsigned s) (hrest : Stops rest) :
    number n.negative (s ++ rest) = (n.reading, some rest) := by
  obtain ⟨negative, ds, fraction, exponent⟩ := n
  cases h with
  | @mk s f e hwhole hdigits hfraction hexponent =>
    rw [List.append_assoc, List.append_assoc]
    have hdigits' : digits (f ++ (e ++ rest)) = ([], f ++ (e ++ rest)) := by
      cases hfraction with
      | present => rfl
      | absent =>
        cases hexponent with
        | absent => exact hrest.digits_eq
        | present he => rcases he with rfl | rfl <;> rfl
    have hexponent' : digits (e ++ rest) = ([], e ++ rest) ∧
        fraction? (e ++ rest) = some (none, e ++ rest) := by
      cases hexponent with
      | absent => exact ⟨hrest.digits_eq, hrest.fraction?_eq⟩
      | present he => rcases he with rfl | rfl <;> exact ⟨rfl, rfl⟩
    exact number_eq (whole?_eq_some_iff.mpr ⟨hdigits.scan hdigits', hwhole⟩)
      (hfraction.scan hexponent'.1 hexponent'.2) (hexponent.scan hrest)

/-- **What is scanned as a number is written so.** -/
theorem unsigned_of_number (h : number negative s = (v, some r)) :
    ∃ (n : Numeral) (cs : Source), n.negative = negative ∧ s = cs ++ r ∧ n.Unsigned cs ∧
      v = n.reading := by
  obtain ⟨ds, r₁, fraction, r₂, exponent, hwhole, hfraction, hexponent, rfl⟩ :=
    exists_parts_of_number h
  obtain ⟨hscan, hds⟩ := whole?_eq_some_iff.mp hwhole
  obtain ⟨cs, rfl, hdigits⟩ := digits_of_scan hscan
  obtain ⟨f, rfl, hfraction'⟩ := fraction_of_scan hfraction
  obtain ⟨e, rfl, hexponent'⟩ := exponent_of_scan hexponent
  refine ⟨⟨negative, ds, fraction, exponent⟩, cs ++ (f ++ e), rfl, ?_,
    .mk hds hdigits hfraction' hexponent', rfl⟩
  rw [List.append_assoc, List.append_assoc]

end AccessControl.Reading
