import AccessControl.Proofs.Json.Tokens

/-! # The scanner follows the grammar

A text reads as a value exactly if the value is written there (`ofSource_eq_iff`).  Both directions
go by the fuel of the scanner.  What is written is scanned, since each part of a text is shorter
than the text, so that the fuel is enough (`Scans`); what is scanned is written so, with any fuel
(`ScansOnly`).
-/
namespace AccessControl.Reading

variable {fuel : Nat} {c : Char} {s b r rest : Source} {v : Reading}

/-! ## What may come first -/

/-- A character that may come first in a value: it is no blank, and no list ends with it. -/
structure Leads (c : Char) : Prop where
  not_blank : ¬IsBlank (some c)
  ne_bracket : c ≠ ']'

theorem isDigit_of_digit? {d : Nat} (h : Decimal.digit? c = some d) : c.isDigit = true := by
  rw [Decimal.digit?] at h
  split at h
  · rename_i hrange
    simp only [Char.isDigit, Bool.and_eq_true, decide_eq_true_eq]
    exact hrange
  · cases h

theorem ne_of_isDigit {d : Char} (hc : c.isDigit = true) (hd : d.isDigit = false) : c ≠ d := by
  rintro rfl
  rw [hc] at hd
  exact Bool.noConfusion hd

theorem leads_of_isDigit (h : c.isDigit = true) : Leads c := by
  refine ⟨?_, ne_of_isDigit h (by decide)⟩
  rintro (heq | heq | heq | heq) <;> exact ne_of_isDigit h (by decide) (Option.some.inj heq)

/-- A number begins with a digit after its sign. -/
theorem Numeral.Unsigned.exists_digit {n : Numeral} (h : n.Unsigned s) :
    ∃ c t, s = some c :: t ∧ c.isDigit = true := by
  obtain ⟨negative, ds, fraction, exponent⟩ := n
  cases h with
  | mk hwhole hdigits _ _ =>
    cases hdigits with
    | nil => exact absurd rfl hwhole.1
    | @cons d x _ _ hx _ =>
      cases x with
      | none => cases hx
      | some c => exact ⟨c, _, rfl, isDigit_of_digit? hx⟩

theorem Written.exists_first (h : Written v s) : ∃ c t, s = some c :: t ∧ Leads c := by
  cases h with
  | number h =>
    cases h with
    | positive _ h =>
      obtain ⟨c, t, hs, hc⟩ := h.exists_digit
      exact ⟨c, t, hs, leads_of_isDigit hc⟩
    | negative _ _ => exact ⟨_, _, rfl, by decide, by decide⟩
  | _ => exact ⟨_, _, rfl, by decide, by decide⟩

/-- Where an item of a list is written, no list ends. -/
theorem Spaced.skip_ne (h : Spaced v s) (t : Source) : skipBlanks (s ++ r) ≠ some ']' :: t := by
  cases h with
  | mk hb h _ =>
    obtain ⟨c, t', rfl, hc⟩ := h.exists_first
    rw [List.append_assoc, hb.skip, List.cons_append, List.cons_append,
      skipBlanks_of_not hc.not_blank]
    intro heq
    exact hc.ne_bracket (Option.some.inj (List.cons.inj heq).1)

/-- A member begins with the quote of its name. -/
theorem Member.exists_skip {m : Option String × Reading} (h : Member m s) (rest : Source) :
    ∃ ps t b s' v, Quoted ps t ∧ Blanks b ∧ Spaced v s' ∧ s'.length < s.length ∧
      m = (joinText? ps, v) ∧
      skipBlanks (s ++ rest) = some '"' :: (t ++ (b ++ some ':' :: (s' ++ rest))) := by
  cases h with
  | @mk _ v _ s' hkey h =>
    cases hkey with
    | @mk ps b t b' hb hquoted hb' =>
      refine ⟨ps, t, b', s', v, hquoted, hb', h, ?_, rfl, ?_⟩
      · rw [List.length_append, List.length_cons]
        omega
      · rw [List.append_assoc, List.append_assoc, hb.skip]
        simp only [List.cons_append, List.append_assoc]
        exact skipBlanks_of_not (by decide)

/-- Where a member of an object is written, no object ends. -/
theorem Member.skip_ne {m : Option String × Reading} (h : Member m s) (t : Source) :
    skipBlanks (s ++ r) ≠ some '}' :: t := by
  obtain ⟨_, _, _, _, _, _, _, _, _, _, hskip⟩ := h.exists_skip r
  rw [hskip]
  intro heq
  cases (List.cons.inj heq).1

/-- Where something is listed, the list does not end at once. -/
theorem Listed.skip_ne {α : Type} {W : α → Source → Prop} {close : Char} {a : α} {as : List α}
    (hW : ∀ {s r}, W a s → ∀ t, skipBlanks (s ++ r) ≠ some close :: t)
    (h : Listed W close (a :: as) s) (t : Source) : skipBlanks (s ++ r) ≠ some close :: t := by
  cases h with
  | last h =>
    rw [List.append_assoc]
    exact hW h t
  | more h _ =>
    rw [List.append_assoc]
    exact hW h t

/-! ## What each part of the scanner does -/

theorem scanValue_blanks (hb : Blanks b) : scanValue fuel (b ++ s) = scanValue fuel s := by
  cases fuel with
  | zero => rfl
  | succ fuel => rw [scanValue, scanValue, hb.skip]

theorem scanValue_skipBlanks : scanValue fuel (skipBlanks s) = scanValue fuel s := by
  obtain ⟨b, hb, hs⟩ := exists_skipped s
  conv_rhs => rw [hs, scanValue_blanks hb]

theorem scanItems_skipBlanks : scanItems fuel (skipBlanks s) = scanItems fuel s := by
  cases fuel with
  | zero => rfl
  | succ fuel => rw [scanItems, scanItems, scanValue_skipBlanks]

theorem scanMembers_skipBlanks : scanMembers fuel (skipBlanks s) = scanMembers fuel s := by
  cases fuel with
  | zero => rfl
  | succ fuel => rw [scanMembers, scanMembers, skipBlanks_skipBlanks]

/-- **What the scanner does with the next item of a list.** -/
theorem scanItems_succ_iff {vs : List Reading} :
    scanItems (fuel + 1) s = (vs, some r) ↔ ∃ v r₁, scanValue fuel s = (v, some r₁) ∧
      ((skipBlanks r₁ = some ']' :: r ∧ vs = [v]) ∨
        ∃ r₂ vs', skipBlanks r₁ = some ',' :: r₂ ∧ (∀ t, skipBlanks r₂ ≠ some ']' :: t) ∧
          scanItems fuel r₂ = (vs', some r) ∧ vs = v :: vs') := by
  rw [scanItems]
  generalize scanValue fuel s = scanned
  obtain ⟨v, r?⟩ := scanned
  cases r? with
  | none =>
    refine iff_of_false (fun h => ?_) ?_
    · cases (Prod.mk.inj h).2
    · rintro ⟨_, _, heq, -⟩
      cases (Prod.mk.inj heq).2
  | some r₁ =>
    dsimp only
    constructor
    · intro h
      refine ⟨v, r₁, rfl, ?_⟩
      split at h
      · rename_i hclose
        obtain ⟨rfl, heq⟩ := Prod.mk.inj h
        obtain rfl := Option.some.inj heq
        exact .inl ⟨hclose, rfl⟩
      · rename_i r₂ hcomma
        split at h
        · cases (Prod.mk.inj h).2
        · rename_i hne
          obtain ⟨rfl, hitems⟩ := Prod.mk.inj h
          refine .inr ⟨r₂, _, hcomma, hne, Prod.ext rfl ?_, ?_⟩
          · rw [← scanItems_skipBlanks]
            exact hitems
          · rw [scanItems_skipBlanks]
      · cases (Prod.mk.inj h).2
    · rintro ⟨_, _, heq, h⟩
      obtain ⟨rfl, hr⟩ := Prod.mk.inj heq
      obtain rfl := Option.some.inj hr
      rcases h with ⟨hclose, rfl⟩ | ⟨r₂, vs', hcomma, hne, hitems, rfl⟩
      · rw [hclose]
        rfl
      · rw [hcomma]
        split
        · cases (List.cons.inj ‹_›).1
        · obtain rfl := (List.cons.inj ‹_›).2
          split
          · exact absurd ‹_› (hne _)
          · rw [scanItems_skipBlanks, hitems]
        · rename_i hnone
          exact absurd rfl (hnone _)

/-- **What the scanner does with the next member of an object.** -/
theorem scanMembers_succ_iff {ms : List (Option String × Reading)} :
    scanMembers (fuel + 1) s = (ms, some r) ↔ ∃ r₁ ps r₂ r₃ v r₄, skipBlanks s = some '"' :: r₁ ∧
      pieces? r₁ = some (ps, r₂) ∧ skipBlanks r₂ = some ':' :: r₃ ∧
      scanValue fuel r₃ = (v, some r₄) ∧
      ((skipBlanks r₄ = some '}' :: r ∧ ms = [(joinText? ps, v)]) ∨
        ∃ r₅ ms', skipBlanks r₄ = some ',' :: r₅ ∧ scanMembers fuel r₅ = (ms', some r) ∧
          ms = (joinText? ps, v) :: ms') := by
  rw [scanMembers]
  constructor
  · intro h
    split at h
    · rename_i r₁ hquote
      split at h
      · cases (Prod.mk.inj h).2
      · rename_i ps r₂ hpieces
        split at h
        · rename_i r₃ hcolon
          split at h
          · cases (Prod.mk.inj h).2
          · rename_i v r₄ hvalue
            refine ⟨r₁, ps, r₂, r₃, v, r₄, hquote, hpieces, hcolon, hvalue, ?_⟩
            split at h
            · rename_i hclose
              obtain ⟨rfl, heq⟩ := Prod.mk.inj h
              obtain rfl := Option.some.inj heq
              exact .inl ⟨hclose, rfl⟩
            · rename_i r₅ hcomma
              obtain ⟨rfl, hmembers⟩ := Prod.mk.inj h
              exact .inr ⟨r₅, _, hcomma, Prod.ext rfl hmembers, rfl⟩
            · cases (Prod.mk.inj h).2
        · cases (Prod.mk.inj h).2
    · cases (Prod.mk.inj h).2
  · rintro ⟨r₁, ps, r₂, r₃, v, r₄, hquote, hpieces, hcolon, hvalue, h⟩
    rw [hquote]
    split
    · obtain rfl := (List.cons.inj ‹_›).2
      rw [hpieces]
      dsimp only
      rw [hcolon]
      split
      · obtain rfl := (List.cons.inj ‹_›).2
        rw [hvalue]
        dsimp only
        rcases h with ⟨hclose, rfl⟩ | ⟨r₅, ms', hcomma, hmembers, rfl⟩
        · rw [hclose]
          rfl
        · rw [hcomma]
          show (_ :: (scanMembers fuel r₅).1, (scanMembers fuel r₅).2) = _
          rw [hmembers]
      · rename_i hne
        exact absurd rfl (hne _)
    · rename_i hne
      exact absurd rfl (hne _)

theorem scanValue_digit (h : c.isDigit = true) :
    scanValue (fuel + 1) (some c :: s) = number false (some c :: s) := by
  rw [scanValue, skipBlanks_of_not (leads_of_isDigit h).not_blank]
  split
  case h_8 heq =>
    obtain ⟨hc, rfl⟩ := List.cons.inj heq
    obtain rfl := Option.some.inj hc
    rw [if_pos h]
  case h_9 hnone => exact absurd rfl (hnone c s)
  -- The other branches are for characters that are no digits.
  all_goals
    rename_i heq
    exact absurd (Option.some.inj (List.cons.inj heq).1) (ne_of_isDigit h (by decide))

theorem scanValue_text :
    scanValue (fuel + 1) (some '"' :: s) = match pieces? s with
      | some (ps, r) => (.str (joinText? ps), some r)
      | none => (.broken, none) := rfl

theorem scanValue_bracket :
    scanValue (fuel + 1) (some '[' :: s) = match skipBlanks s with
      | some ']' :: r => (.arr [] true, some r)
      | r => (.arr (scanItems fuel r).1 (scanItems fuel r).2.isSome, (scanItems fuel r).2) := rfl

theorem scanValue_brace :
    scanValue (fuel + 1) (some '{' :: s) = match skipBlanks s with
      | some '}' :: r => (.obj [] true, some r)
      | r => (.obj (scanMembers fuel r).1 (scanMembers fuel r).2.isSome,
        (scanMembers fuel r).2) := rfl

theorem scanValue_list {vs : List Reading} (hne : ∀ t, skipBlanks s ≠ some ']' :: t)
    (h : scanItems fuel s = (vs, some r)) :
    scanValue (fuel + 1) (some '[' :: s) = (.arr vs true, some r) := by
  rw [scanValue_bracket]
  split
  · exact absurd ‹_› (hne _)
  · rw [scanItems_skipBlanks, h]
    rfl

theorem scanValue_object {ms : List (Option String × Reading)}
    (hne : ∀ t, skipBlanks s ≠ some '}' :: t) (h : scanMembers fuel s = (ms, some r)) :
    scanValue (fuel + 1) (some '{' :: s) = (.obj ms true, some r) := by
  rw [scanValue_brace]
  split
  · exact absurd ‹_› (hne _)
  · rw [scanMembers_skipBlanks, h]
    rfl

/-! ## What is written is scanned -/

/-- With some fuel, the scanner takes what is written with fewer symbols. -/
structure Scans (fuel : Nat) : Prop where
  value : ∀ {v s rest}, Written v s → Stops rest → s.length < fuel →
    scanValue fuel (s ++ rest) = (v, some rest)
  items : ∀ {v vs s rest}, Listed Spaced ']' (v :: vs) s → s.length < fuel →
    scanItems fuel (s ++ rest) = (v :: vs, some rest)
  members : ∀ {m ms s rest}, Listed Member '}' (m :: ms) s → s.length < fuel →
    scanMembers fuel (s ++ rest) = (m :: ms, some rest)

/-- The blanks after a value are left. -/
theorem Scans.spaced (h : Scans fuel) (hv : Spaced v s) (hrest : Stops rest)
    (hfuel : s.length < fuel) :
    ∃ b, Blanks b ∧ scanValue fuel (s ++ rest) = (v, some (b ++ rest)) := by
  cases hv with
  | @mk _ b s b' hb hv hb' =>
    rw [List.length_append, List.length_append] at hfuel
    refine ⟨b', hb', ?_⟩
    rw [List.append_assoc, scanValue_blanks hb, List.append_assoc]
    exact h.value hv (.append hb' hrest) (by omega)

theorem Scans.value_succ (h : Scans fuel) (hv : Written v s) (hrest : Stops rest)
    (hfuel : s.length < fuel + 1) : scanValue (fuel + 1) (s ++ rest) = (v, some rest) := by
  cases hv with
  | null => rfl
  | isTrue => rfl
  | isFalse => rfl
  | number hn =>
    cases hn with
    | positive hsign hn =>
      obtain ⟨c, t, hs, hc⟩ := hn.exists_digit
      have hnumber := number_of_unsigned hn hrest
      rw [hsign] at hnumber
      rw [← hnumber, hs, List.cons_append, scanValue_digit hc]
    | negative hsign hn =>
      have hnumber := number_of_unsigned hn hrest
      rw [hsign] at hnumber
      exact hnumber
  | text hquoted =>
    rw [List.cons_append, scanValue_text, pieces?_of_quoted hquoted]
  | @list vs s hlisted =>
    rw [List.length_cons] at hfuel
    cases vs with
    | nil =>
      cases hlisted with
      | nothing hb =>
        rw [List.cons_append, List.append_assoc, scanValue_bracket, hb.skip]
        rfl
    | cons v vs =>
      exact scanValue_list (hlisted.skip_ne Spaced.skip_ne) (h.items hlisted (by omega))
  | @object ms s hlisted =>
    rw [List.length_cons] at hfuel
    cases ms with
    | nil =>
      cases hlisted with
      | nothing hb =>
        rw [List.cons_append, List.append_assoc, scanValue_brace, hb.skip]
        rfl
    | cons m ms =>
      exact scanValue_object (hlisted.skip_ne Member.skip_ne) (h.members hlisted (by omega))

theorem Scans.items_succ (h : Scans fuel) {vs : List Reading}
    (hlisted : Listed Spaced ']' (v :: vs) s) (hfuel : s.length < fuel + 1) :
    scanItems (fuel + 1) (s ++ rest) = (v :: vs, some rest) := by
  rw [scanItems_succ_iff]
  cases hlisted with
  | @last _ s hv =>
    rw [List.length_append, List.length_singleton] at hfuel
    obtain ⟨b, hb, hvalue⟩ := h.spaced hv (.bracket rest) (by omega)
    rw [List.append_assoc]
    exact ⟨v, _, hvalue, .inl ⟨hb.skip, rfl⟩⟩
  | @more _ v' vs s s' hv hlisted =>
    rw [List.length_append, List.length_cons] at hfuel
    obtain ⟨b, hb, hvalue⟩ := h.spaced hv (.comma (s' ++ rest)) (by omega)
    rw [List.append_assoc]
    exact ⟨v, _, hvalue, .inr ⟨s' ++ rest, v' :: vs, hb.skip, hlisted.skip_ne Spaced.skip_ne,
      h.items hlisted (by omega), rfl⟩⟩

theorem Scans.members_succ (h : Scans fuel) {m : Option String × Reading}
    {ms : List (Option String × Reading)} (hlisted : Listed Member '}' (m :: ms) s)
    (hfuel : s.length < fuel + 1) :
    scanMembers (fuel + 1) (s ++ rest) = (m :: ms, some rest) := by
  rw [scanMembers_succ_iff]
  cases hlisted with
  | @last _ s hm =>
    rw [List.length_append, List.length_singleton] at hfuel
    rw [List.append_assoc]
    obtain ⟨ps, t, b, s', v, hquoted, hb, hv, hlength, rfl, hskip⟩ :=
      hm.exists_skip ([some '}'] ++ rest)
    obtain ⟨b', hb', hvalue⟩ := h.spaced hv (.brace rest) (by omega)
    exact ⟨_, ps, _, _, v, _, hskip, pieces?_of_quoted hquoted, hb.skip, hvalue,
      .inl ⟨hb'.skip, rfl⟩⟩
  | @more _ m' ms s s' hm hlisted =>
    rw [List.length_append, List.length_cons] at hfuel
    rw [List.append_assoc]
    obtain ⟨ps, t, b, s'', v, hquoted, hb, hv, hlength, rfl, hskip⟩ :=
      hm.exists_skip (some ',' :: s' ++ rest)
    obtain ⟨b', hb', hvalue⟩ := h.spaced hv (.comma (s' ++ rest)) (by omega)
    exact ⟨_, ps, _, _, v, _, hskip, pieces?_of_quoted hquoted, hb.skip, hvalue,
      .inr ⟨s' ++ rest, m' :: ms, hb'.skip, h.members hlisted (by omega), rfl⟩⟩

/-- **The scanner takes all that is written, if its fuel is enough.** -/
theorem scans (fuel : Nat) : Scans fuel := by
  induction fuel with
  | zero =>
    exact ⟨fun _ _ h => absurd h (Nat.not_lt_zero _), fun _ h => absurd h (Nat.not_lt_zero _),
      fun _ h => absurd h (Nat.not_lt_zero _)⟩
  | succ fuel ih => exact ⟨ih.value_succ, ih.items_succ, ih.members_succ⟩

/-! ## What is scanned is written so -/

/-- With some fuel, the scanner takes nothing but what is written. -/
structure ScansOnly (fuel : Nat) : Prop where
  value : ∀ {s v r}, scanValue fuel s = (v, some r) →
    ∃ b cs, Blanks b ∧ s = b ++ (cs ++ r) ∧ Written v cs
  items : ∀ {s vs r}, scanItems fuel s = (vs, some r) →
    vs ≠ [] ∧ ∃ cs, s = cs ++ r ∧ Listed Spaced ']' vs cs
  members : ∀ {s ms r}, scanMembers fuel s = (ms, some r) →
    ms ≠ [] ∧ ∃ cs, s = cs ++ r ∧ Listed Member '}' ms cs

theorem ScansOnly.spaced (h : ScansOnly fuel) (hscan : scanValue fuel s = (v, some r)) :
    ∃ cs, s = cs ++ skipBlanks r ∧ Spaced v cs := by
  obtain ⟨b, cs, hb, rfl, hwritten⟩ := h.value hscan
  obtain ⟨b', hb', hr⟩ := exists_skipped r
  refine ⟨b ++ (cs ++ b'), ?_, .mk hb hwritten hb'⟩
  rw [List.append_assoc, List.append_assoc, ← hr]

theorem ScansOnly.list (h : ScansOnly fuel)
    (hscan : scanValue (fuel + 1) (some '[' :: s) = (v, some r)) :
    ∃ vs cs, v = .arr vs true ∧ s = cs ++ r ∧ Listed Spaced ']' vs cs := by
  rw [scanValue_bracket] at hscan
  obtain ⟨b, hb, hs⟩ := exists_skipped s
  split at hscan
  · rename_i hclose
    obtain ⟨rfl, hr⟩ := Prod.mk.inj hscan
    obtain rfl := Option.some.inj hr
    rw [hclose] at hs
    exact ⟨[], b ++ [some ']'], rfl, by rw [hs, List.append_assoc]; rfl, .nothing hb⟩
  · rw [scanItems_skipBlanks] at hscan
    obtain ⟨rfl, hr⟩ := Prod.mk.inj hscan
    obtain ⟨-, cs, hcs, hlisted⟩ := h.items (Prod.ext rfl hr)
    exact ⟨_, cs, by rw [hr]; rfl, hcs, hlisted⟩

theorem ScansOnly.object (h : ScansOnly fuel)
    (hscan : scanValue (fuel + 1) (some '{' :: s) = (v, some r)) :
    ∃ ms cs, v = .obj ms true ∧ s = cs ++ r ∧ Listed Member '}' ms cs := by
  rw [scanValue_brace] at hscan
  obtain ⟨b, hb, hs⟩ := exists_skipped s
  split at hscan
  · rename_i hclose
    obtain ⟨rfl, hr⟩ := Prod.mk.inj hscan
    obtain rfl := Option.some.inj hr
    rw [hclose] at hs
    exact ⟨[], b ++ [some '}'], rfl, by rw [hs, List.append_assoc]; rfl, .nothing hb⟩
  · rw [scanMembers_skipBlanks] at hscan
    obtain ⟨rfl, hr⟩ := Prod.mk.inj hscan
    obtain ⟨-, cs, hcs, hlisted⟩ := h.members (Prod.ext rfl hr)
    exact ⟨_, cs, by rw [hr]; rfl, hcs, hlisted⟩

theorem ScansOnly.value_succ (h : ScansOnly fuel) (hscan : scanValue (fuel + 1) s = (v, some r)) :
    ∃ b cs, Blanks b ∧ s = b ++ (cs ++ r) ∧ Written v cs := by
  obtain ⟨b, hb, hs⟩ := exists_skipped s
  suffices ∃ cs, skipBlanks s = cs ++ r ∧ Written v cs by
    obtain ⟨cs, hskip, hwritten⟩ := this
    exact ⟨b, cs, hb, hskip ▸ hs, hwritten⟩
  rw [scanValue] at hscan
  split at hscan
  · rename_i hskip
    obtain ⟨rfl, rfl⟩ := word_eq_iff.mp hscan
    exact ⟨_, hskip, .null⟩
  · rename_i hskip
    obtain ⟨rfl, rfl⟩ := word_eq_iff.mp hscan
    exact ⟨_, hskip, .isTrue⟩
  · rename_i hskip
    obtain ⟨rfl, rfl⟩ := word_eq_iff.mp hscan
    exact ⟨_, hskip, .isFalse⟩
  · rename_i t hskip
    split at hscan
    · rename_i ps r' hpieces
      obtain ⟨rfl, hr⟩ := Prod.mk.inj hscan
      obtain rfl := Option.some.inj hr
      obtain ⟨cs, rfl, hquoted⟩ := quoted_of_pieces? hpieces
      exact ⟨_, hskip, .text hquoted⟩
    · cases (Prod.mk.inj hscan).2
  · rename_i hskip
    obtain ⟨vs, cs, rfl, rfl, hlisted⟩ := h.list hscan
    exact ⟨_, hskip, .list hlisted⟩
  · rename_i hskip
    obtain ⟨ms, cs, rfl, rfl, hlisted⟩ := h.object hscan
    exact ⟨_, hskip, .object hlisted⟩
  · rename_i hskip
    obtain ⟨n, cs, hsign, rfl, hnumber, rfl⟩ := unsigned_of_number hscan
    exact ⟨_, hskip, .number (.negative hsign hnumber)⟩
  · rename_i c t hskip
    split at hscan
    · obtain ⟨n, cs, hsign, hcs, hnumber, rfl⟩ := unsigned_of_number hscan
      exact ⟨cs, hskip.trans hcs, .number (.positive hsign hnumber)⟩
    · cases (Prod.mk.inj hscan).2
  · cases (Prod.mk.inj hscan).2

theorem ScansOnly.items_succ (h : ScansOnly fuel) {vs : List Reading}
    (hscan : scanItems (fuel + 1) s = (vs, some r)) :
    vs ≠ [] ∧ ∃ cs, s = cs ++ r ∧ Listed Spaced ']' vs cs := by
  obtain ⟨v, r₁, hvalue, hnext⟩ := scanItems_succ_iff.mp hscan
  obtain ⟨cs, rfl, hspaced⟩ := h.spaced hvalue
  rcases hnext with ⟨hclose, rfl⟩ | ⟨r₂, vs', hcomma, -, hitems, rfl⟩
  · refine ⟨List.cons_ne_nil _ _, cs ++ [some ']'], ?_, .last hspaced⟩
    rw [hclose, List.append_assoc]
    rfl
  · obtain ⟨hne, cs', rfl, hlisted⟩ := h.items hitems
    obtain ⟨v', vs, rfl⟩ := List.exists_cons_of_ne_nil hne
    refine ⟨List.cons_ne_nil _ _, cs ++ some ',' :: cs', ?_, .more hspaced hlisted⟩
    rw [hcomma, List.append_assoc]
    rfl

theorem ScansOnly.members_succ (h : ScansOnly fuel) {ms : List (Option String × Reading)}
    (hscan : scanMembers (fuel + 1) s = (ms, some r)) :
    ms ≠ [] ∧ ∃ cs, s = cs ++ r ∧ Listed Member '}' ms cs := by
  obtain ⟨r₁, ps, r₂, r₃, v, r₄, hquote, hpieces, hcolon, hvalue, hnext⟩ :=
    scanMembers_succ_iff.mp hscan
  obtain ⟨t, rfl, hquoted⟩ := quoted_of_pieces? hpieces
  obtain ⟨cs, rfl, hspaced⟩ := h.spaced hvalue
  obtain ⟨b, hb, hs⟩ := exists_skipped s
  obtain ⟨b', hb', hr₂⟩ := exists_skipped r₂
  have hmember := Member.mk (Named.mk hb hquoted hb') hspaced
  have htext : s = b ++ some '"' :: (t ++ b') ++ some ':' :: cs ++ skipBlanks r₄ := by
    rw [hs, hquote, hr₂, hcolon]
    simp only [List.append_assoc, List.cons_append]
  rcases hnext with ⟨hclose, rfl⟩ | ⟨r₅, ms', hcomma, hmembers, rfl⟩
  · refine ⟨List.cons_ne_nil _ _, _, ?_, .last hmember⟩
    rw [htext, hclose, List.append_assoc _ [_]]
    rfl
  · obtain ⟨hne, cs', rfl, hlisted⟩ := h.members hmembers
    obtain ⟨m, ms, rfl⟩ := List.exists_cons_of_ne_nil hne
    refine ⟨List.cons_ne_nil _ _, _, ?_, .more hmember hlisted⟩
    rw [htext, hcomma, List.append_assoc _ (_ :: cs')]
    rfl

/-- **The scanner takes nothing but what is written.** -/
theorem scansOnly (fuel : Nat) : ScansOnly fuel := by
  induction fuel with
  | zero =>
    constructor <;> intro s vs r h <;> cases (Prod.mk.inj h).2
  | succ fuel ih => exact ⟨ih.value_succ, ih.items_succ, ih.members_succ⟩

/-- **A text reads as a value exactly if the value is written there, between blanks.** -/
theorem ofSource_eq_iff : ofSource s = (v, true) ↔ Spaced v s := by
  have hstep : ofSource s = (v, true) ↔
      ∃ r, scanValue (s.length + 1) s = (v, some r) ∧ skipBlanks r = [] := by
    rw [ofSource]
    obtain ⟨v', r?⟩ := scanValue (s.length + 1) s
    cases r? <;> simp
  rw [hstep]
  constructor
  · rintro ⟨r, hscan, hblank⟩
    obtain ⟨cs, hs, hspaced⟩ := (scansOnly _).spaced hscan
    rw [hblank, List.append_nil] at hs
    exact hs ▸ hspaced
  · intro h
    obtain ⟨b, hb, hscan⟩ := (scans (s.length + 1)).spaced h .nil (Nat.lt_succ_self _)
    rw [List.append_nil] at hscan
    exact ⟨_, hscan, hb.skip⟩

/-- A text is JSON for one thing at most. -/
theorem Spaced.unique {v' : Reading} (h : Spaced v s) (h' : Spaced v' s) : v = v' :=
  (Prod.mk.inj ((ofSource_eq_iff.mpr h).symm.trans (ofSource_eq_iff.mpr h'))).1

end AccessControl.Reading
