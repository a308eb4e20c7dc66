import AccessControl.Program.Basic

/-! # Transcripts of programs, and what answers them

A program fixes which requests are made and what follows from each answer; it does not say
how requests are answered.  Two notions keep these apart:

* `p.Transcript t a` — the exchanges `t` are ones the program `p` may have on its way to the
  result `a`, whatever it was that answered;
* `O.Follows s t s'` — an outside `O` may answer the requests of `t` one after the other as
  they were answered, and is led from `s` to `s'`.

A **run** of a program is both at once.  Since the exchanges of several programs that run at
the same time are one list, of which each program has its part, the same two notions serve
for programs that run alone and for programs that run side by side.

`O.Ensures p s Q` says that every run of `p` from `s` ends as `Q` has it.  It is computed
along the program (`ensures_done`, `ensures_call`, `ensures_bind`), so a program is gone
through in the order of its text.
-/
namespace AccessControl

/-- A request with the answer that was given to it. -/
structure Exchange (I : Interface) where
  request : I.Request
  answer : I.Answer request

namespace Program
variable {I : Interface} {α β : Type}

/-- **What a program may exchange on its way to a result**, whatever answers it. -/
inductive Transcript : Program I α → List (Exchange I) → α → Prop where
  | done (a : α) : Transcript (.done a) [] a
  | call {r : I.Request} {next : I.Answer r → Program I α} {x : I.Answer r}
      {t : List (Exchange I)} {a : α} (h : Transcript (next x) t a) :
      Transcript (.call r next) (⟨r, x⟩ :: t) a

theorem transcript_done_iff {a b : α} {t : List (Exchange I)} :
    (done a : Program I α).Transcript t b ↔ t = [] ∧ b = a := by
  constructor
  · intro h
    cases h
    exact ⟨rfl, rfl⟩
  · rintro ⟨rfl, rfl⟩
    exact .done b

theorem transcript_call_iff {r : I.Request} {next : I.Answer r → Program I α}
    {t : List (Exchange I)} {a : α} :
    (call r next).Transcript t a ↔ ∃ x rest, t = ⟨r, x⟩ :: rest ∧ (next x).Transcript rest a := by
  constructor
  · intro h
    cases h with
    | call h => exact ⟨_, _, rfl, h⟩
  · rintro ⟨x, rest, rfl, h⟩
    exact .call h

theorem transcript_request_iff {r : I.Request} {t : List (Exchange I)} {x : I.Answer r} :
    (request r).Transcript t x ↔ t = [⟨r, x⟩] := by
  rw [request, transcript_call_iff]
  constructor
  · rintro ⟨y, rest, rfl, h⟩
    obtain ⟨rfl, rfl⟩ := transcript_done_iff.mp h
    rfl
  · rintro rfl
    exact ⟨x, [], rfl, .done x⟩

/-- **The exchanges of one program after another are the exchanges of the first and then
those of the second.** -/
theorem transcript_bind_iff {p : Program I α} {f : α → Program I β} {t : List (Exchange I)}
    {b : β} :
    (p >>= f).Transcript t b ↔
      ∃ t₁ a t₂, t = t₁ ++ t₂ ∧ p.Transcript t₁ a ∧ (f a).Transcript t₂ b := by
  -- The first program is gone through request by request.
  induction p generalizing t with
  | done a =>
    rw [done_bind]
    constructor
    · exact fun h => ⟨[], a, t, rfl, .done a, h⟩
    · rintro ⟨t₁, a', t₂, rfl, h₁, h₂⟩
      obtain ⟨rfl, rfl⟩ := transcript_done_iff.mp h₁
      exact h₂
  | call r next ih =>
    rw [call_bind, transcript_call_iff]
    constructor
    · rintro ⟨x, rest, rfl, h⟩
      obtain ⟨t₁, a, t₂, rfl, h₁, h₂⟩ := (ih x).mp h
      exact ⟨⟨r, x⟩ :: t₁, a, t₂, rfl, .call h₁, h₂⟩
    · rintro ⟨t₁, a, t₂, rfl, h₁, h₂⟩
      obtain ⟨x, rest, rfl, h⟩ := transcript_call_iff.mp h₁
      exact ⟨x, rest ++ t₂, rfl, (ih x).mpr ⟨rest, a, t₂, rfl, h, h₂⟩⟩

/-- A program makes requests of one kind only, whatever answers it. -/
def Asks (P : I.Request → Prop) (p : Program I α) : Prop :=
  ∀ t a, p.Transcript t a → ∀ e ∈ t, P e.request

variable {P Q : I.Request → Prop}

theorem Asks.mono {p : Program I α} (h : p.Asks P) (hPQ : ∀ r, P r → Q r) : p.Asks Q :=
  fun t a ht e he => hPQ e.request (h t a ht e he)

theorem asks_done (a : α) : (done a : Program I α).Asks P := by
  intro t b ht e he
  obtain ⟨rfl, rfl⟩ := transcript_done_iff.mp ht
  exact absurd he List.not_mem_nil

theorem asks_request {r : I.Request} (h : P r) : (request r).Asks P := by
  intro t x ht e he
  obtain rfl := transcript_request_iff.mp ht
  obtain rfl := List.mem_singleton.mp he
  exact h

theorem Asks.bind {p : Program I α} {f : α → Program I β} (hp : p.Asks P)
    (hf : ∀ a, (f a).Asks P) : (p >>= f).Asks P := by
  intro t b ht e he
  obtain ⟨t₁, a, t₂, rfl, h₁, h₂⟩ := transcript_bind_iff.mp ht
  rcases List.mem_append.mp he with he | he
  · exact hp t₁ a h₁ e he
  · exact hf a t₂ b h₂ e he

/-- Steps that may fail ask, one after the other, no more than each of them asks. -/
theorem Asks.run_bind {ε : Type} {x : ExceptT ε (Program I) α} {f : α → ExceptT ε (Program I) β}
    (hx : x.run.Asks P) (hf : ∀ a, (f a).run.Asks P) : (x >>= f).run.Asks P := by
  rw [ExceptT.run_bind]
  refine hx.bind fun r => ?_
  cases r with
  | ok a => exact hf a
  | error failure => exact asks_done _

/-- **What a program may exchange before it is given up**, whatever answers it. -/
def Begins (p : Program I α) (t : List (Exchange I)) : Prop := ∃ u a, p.Transcript (t ++ u) a

/-- A program may be given up when it has nothing left to do. -/
theorem Transcript.begins {p : Program I α} {t : List (Exchange I)} {a : α}
    (h : p.Transcript t a) : p.Begins t := ⟨[], a, (List.append_nil t).symm ▸ h⟩

/-- Whatever is to answer it, a program has an end. -/
theorem exists_transcript (p : Program I α) (answer : (r : I.Request) → I.Answer r) :
    ∃ t a, p.Transcript t a ∧ ∀ e ∈ t, e.answer = answer e.request := by
  induction p with
  | done a => exact ⟨[], a, .done a, List.forall_mem_nil _⟩
  | call r next ih =>
    obtain ⟨t, a, ht, hanswers⟩ := ih (answer r)
    exact ⟨_, a, .call ht, List.forall_mem_cons.mpr ⟨rfl, hanswers⟩⟩

/-- **A program that has begun may go on with any answers.** -/
theorem Begins.exists_transcript {p : Program I α} {t : List (Exchange I)} (h : p.Begins t)
    (answer : (r : I.Request) → I.Answer r) :
    ∃ u a, p.Transcript (t ++ u) a ∧ ∀ e ∈ u, e.answer = answer e.request := by
  obtain ⟨u, a, h⟩ := h
  induction t generalizing p with
  | nil => exact p.exists_transcript answer
  | cons e t ih =>
    cases h with
    | call h =>
      obtain ⟨u', a', h', hanswers⟩ := ih h
      exact ⟨u', a', .call h', hanswers⟩

/-- What begins a program, does so however much of it there is. -/
theorem Begins.of_append {p : Program I α} {t u : List (Exchange I)} (h : p.Begins (t ++ u)) :
    p.Begins t := by
  obtain ⟨v, a, h⟩ := h
  exact ⟨u ++ v, a, by rwa [← List.append_assoc]⟩

/-- Exchanges with which a program has ended are not gone on with. -/
theorem Transcript.eq_of_append {p : Program I α} {t u : List (Exchange I)} {a b : α}
    (h : p.Transcript t a) (h' : p.Transcript (t ++ u) b) : u = [] ∧ b = a := by
  induction h with
  | done a => exact transcript_done_iff.mp h'
  | call h ih =>
    obtain ⟨x, rest, heq, hrest⟩ := transcript_call_iff.mp h'
    cases heq
    exact ih hrest

theorem begins_done {a : α} {t : List (Exchange I)} (h : (done a : Program I α).Begins t) :
    t = [] := by
  obtain ⟨u, b, h⟩ := h
  exact (List.append_eq_nil_iff.mp (transcript_done_iff.mp h).1).1

theorem begins_request {r : I.Request} {t : List (Exchange I)} (h : (request r).Begins t) :
    t = [] ∨ ∃ x, t = [⟨r, x⟩] := by
  obtain ⟨u, x, h⟩ := h
  rcases List.append_eq_singleton_iff.mp (transcript_request_iff.mp h) with ⟨rfl, -⟩ | ⟨rfl, -⟩
  · exact .inl rfl
  · exact .inr ⟨x, rfl⟩

/-- Of two programs one after the other the first is given up, or it has ended and the second
is. -/
theorem Begins.bind_cases {p : Program I α} {f : α → Program I β} {t : List (Exchange I)}
    (h : (p >>= f).Begins t) :
    p.Begins t ∨ ∃ t₁ a t₂, t = t₁ ++ t₂ ∧ p.Transcript t₁ a ∧ (f a).Begins t₂ := by
  obtain ⟨u, b, h⟩ := h
  obtain ⟨t₁, a, t₂, heq, h₁, h₂⟩ := transcript_bind_iff.mp h
  -- The exchanges end within those of the first program, or they have all of them.
  rcases List.append_eq_append_iff.mp heq with ⟨rest, rfl, -⟩ | ⟨rest, rfl, rfl⟩
  · exact .inl ⟨rest, a, h₁⟩
  · exact .inr ⟨t₁, a, rest, rfl, h₁, u, b, h₂⟩

/-- A program makes its kind of requests until it is given up. -/
theorem Asks.begins {p : Program I α} (hp : p.Asks P) {t : List (Exchange I)} (h : p.Begins t) :
    ∀ e ∈ t, P e.request := by
  obtain ⟨u, a, h⟩ := h
  exact fun e he => hp _ a h e (List.mem_append_left _ he)

end Program

/-- **What answers requests**: from which state a request may be answered, with which
answer, and which state comes next. -/
structure Outside (I : Interface) (σ : Type) where
  /-- A request made in a state may be answered so and lead to another state. -/
  Answers : (r : I.Request) → σ → I.Answer r → σ → Prop

namespace Outside
variable {I : Interface} {σ α β : Type} (O : Outside I σ)

/-- The requests of a list are answered one after the other as the list has it. -/
inductive Follows : σ → List (Exchange I) → σ → Prop where
  | nil (s : σ) : Follows s [] s
  | cons {s m s' : σ} {e : Exchange I} {t : List (Exchange I)}
      (h : O.Answers e.request s e.answer m) (ht : Follows m t s') : Follows s (e :: t) s'

variable {O}

theorem follows_nil_iff {s s' : σ} : O.Follows s [] s' ↔ s' = s := by
  constructor
  · intro h
    cases h
    rfl
  · rintro rfl
    exact .nil s'

theorem follows_cons_iff {s s' : σ} {e : Exchange I} {t : List (Exchange I)} :
    O.Follows s (e :: t) s' ↔ ∃ m, O.Answers e.request s e.answer m ∧ O.Follows m t s' := by
  constructor
  · intro h
    cases h with
    | cons h ht => exact ⟨_, h, ht⟩
  · rintro ⟨m, h, ht⟩
    exact .cons h ht

theorem follows_append_iff {s s' : σ} {t u : List (Exchange I)} :
    O.Follows s (t ++ u) s' ↔ ∃ m, O.Follows s t m ∧ O.Follows m u s' := by
  induction t generalizing s with
  | nil =>
    constructor
    · exact fun h => ⟨s, .nil s, h⟩
    · rintro ⟨m, h, hu⟩
      exact follows_nil_iff.mp h ▸ hu
  | cons e t ih =>
    rw [List.cons_append, follows_cons_iff]
    constructor
    · rintro ⟨m, h, ht⟩
      obtain ⟨n, htn, hu⟩ := ih.mp ht
      exact ⟨n, .cons h htn, hu⟩
    · rintro ⟨n, h, hu⟩
      obtain ⟨m, hm, ht⟩ := follows_cons_iff.mp h
      exact ⟨m, hm, ih.mpr ⟨n, ht, hu⟩⟩

/-- A property that no answer of the list destroys lasts to its end. -/
theorem Follows.invariant {P : σ → Prop} {s s' : σ} {t : List (Exchange I)}
    (h : O.Follows s t s')
    (step : ∀ e ∈ t, ∀ m m', O.Answers e.request m e.answer m' → P m → P m') (hs : P s) :
    P s' := by
  induction h with
  | nil => exact hs
  | cons h ht ih =>
    exact ih (fun e he => step e (List.mem_cons_of_mem _ he))
      (step _ List.mem_cons_self _ _ h hs)

/-- **Every exchange cuts a run in two**: it was answered when what stands before it was done. -/
theorem Follows.cut {s s' : σ} {t : List (Exchange I)} (h : O.Follows s t s') {e : Exchange I}
    (he : e ∈ t) : ∃ before after m m', t = before ++ e :: after ∧ O.Follows s before m ∧
      O.Answers e.request m e.answer m' ∧ O.Follows m' after s' := by
  obtain ⟨before, after, rfl⟩ := List.append_of_mem he
  obtain ⟨m, hbefore, hrest⟩ := follows_append_iff.mp h
  obtain ⟨m', hanswers, hafter⟩ := follows_cons_iff.mp hrest
  exact ⟨before, after, m, m', rfl, hbefore, hanswers, hafter⟩

/-- Whatever was exchanged was answered in a state that had the property. -/
theorem Follows.exists_of_mem {P : σ → Prop} {s s' : σ} {t : List (Exchange I)}
    (h : O.Follows s t s')
    (step : ∀ e ∈ t, ∀ m m', O.Answers e.request m e.answer m' → P m → P m') (hs : P s)
    {e : Exchange I} (he : e ∈ t) : ∃ m m', P m ∧ O.Answers e.request m e.answer m' := by
  obtain ⟨before, after, m, m', rfl, hbefore, hanswers, -⟩ := h.cut he
  exact ⟨m, m', hbefore.invariant (fun e he => step e (List.mem_append_left _ he)) hs, hanswers⟩

variable (O)

/-- **Every run of a program from a state ends as said.** -/
def Ensures (p : Program I α) (s : σ) (Q : α → σ → Prop) : Prop :=
  ∀ t a s', p.Transcript t a → O.Follows s t s' → Q a s'

/-- **Every run of a program from a state ends as said, and there is one.** -/
def Yields (p : Program I α) (s : σ) (Q : α → σ → Prop) : Prop :=
  O.Ensures p s Q ∧ ∃ t a s', p.Transcript t a ∧ O.Follows s t s'

variable {O} {s : σ} {Q R : α → σ → Prop}

theorem Ensures.mono {p : Program I α} (h : O.Ensures p s Q) (hQ : ∀ a m, Q a m → R a m) :
    O.Ensures p s R :=
  fun t a s' ht hs => hQ a s' (h t a s' ht hs)

theorem Ensures.and {p : Program I α} (h : O.Ensures p s Q) (h' : O.Ensures p s R) :
    O.Ensures p s (fun a m => Q a m ∧ R a m) :=
  fun t a s' ht hs => ⟨h t a s' ht hs, h' t a s' ht hs⟩

@[simp] theorem ensures_done {a : α} :
    O.Ensures (.done a : Program I α) s Q ↔ Q a s := by
  constructor
  · exact fun h => h [] a s (.done a) (.nil s)
  · rintro h t b s' ht hs
    obtain ⟨rfl, rfl⟩ := Program.transcript_done_iff.mp ht
    obtain rfl := follows_nil_iff.mp hs
    exact h

@[simp] theorem ensures_pure {a : α} :
    O.Ensures (pure a : Program I α) s Q ↔ Q a s := ensures_done

theorem ensures_call {r : I.Request} {next : I.Answer r → Program I α} :
    O.Ensures (.call r next) s Q ↔ ∀ x m, O.Answers r s x m → O.Ensures (next x) m Q := by
  constructor
  · exact fun h x m hx t a s' ht hs => h _ a s' (.call ht) (.cons hx hs)
  · rintro h t a s' ht hs
    obtain ⟨x, rest, rfl, hnext⟩ := Program.transcript_call_iff.mp ht
    obtain ⟨m, hx, hrest⟩ := follows_cons_iff.mp hs
    exact h x m hx rest a s' hnext hrest

@[simp] theorem ensures_request {r : I.Request} {Q : I.Answer r → σ → Prop} :
    O.Ensures (Program.request r) s Q ↔ ∀ x m, O.Answers r s x m → Q x m := by
  simp only [Program.request, ensures_call, ensures_done]

@[simp] theorem ensures_bind {p : Program I α} {f : α → Program I β} {Q : β → σ → Prop} :
    O.Ensures (p >>= f) s Q ↔ O.Ensures p s (fun a m => O.Ensures (f a) m Q) := by
  constructor
  · intro h t a m ht hm u b s' hu hs
    exact h (t ++ u) b s' (Program.transcript_bind_iff.mpr ⟨t, a, u, rfl, ht, hu⟩)
      (follows_append_iff.mpr ⟨m, hm, hs⟩)
  · intro h t b s' ht hs
    obtain ⟨t₁, a, t₂, rfl, h₁, h₂⟩ := Program.transcript_bind_iff.mp ht
    obtain ⟨m, hm, hs⟩ := follows_append_iff.mp hs
    exact h t₁ a m h₁ hm t₂ b s' h₂ hs

/-! ## Programs that have a run -/

theorem yields_done {a : α} (h : Q a s) : O.Yields (.done a : Program I α) s Q :=
  ⟨ensures_done.mpr h, [], a, s, .done a, .nil s⟩

theorem yields_pure {a : α} (h : Q a s) : O.Yields (pure a : Program I α) s Q := yields_done h

theorem yields_request {r : I.Request} {Q : I.Answer r → σ → Prop}
    (hanswered : ∃ x m, O.Answers r s x m) (h : ∀ x m, O.Answers r s x m → Q x m) :
    O.Yields (Program.request r) s Q := by
  obtain ⟨x, m, hx⟩ := hanswered
  exact ⟨ensures_request.mpr h, [⟨r, x⟩], x, m, Program.transcript_request_iff.mpr rfl,
    .cons hx (.nil m)⟩

/-- **A program has a run if its first part has one and each way to go on does.** -/
theorem Yields.bind {p : Program I α} {f : α → Program I β} {Q : β → σ → Prop}
    (hp : O.Yields p s R) (hf : ∀ a m, R a m → O.Yields (f a) m Q) :
    O.Yields (p >>= f) s Q := by
  obtain ⟨hensures, t, a, m, ht, hm⟩ := hp
  constructor
  · exact ensures_bind.mpr (hensures.mono fun a m hR => (hf a m hR).1)
  · obtain ⟨-, u, b, s', hu, hs⟩ := hf a m (hensures t a m ht hm)
    exact ⟨t ++ u, b, s', Program.transcript_bind_iff.mpr ⟨t, a, u, rfl, ht, hu⟩,
      follows_append_iff.mpr ⟨m, hm, hs⟩⟩

theorem Yields.mono {p : Program I α} (h : O.Yields p s Q) (hQ : ∀ a m, Q a m → R a m) :
    O.Yields p s R :=
  ⟨h.1.mono hQ, h.2⟩

/-! ## Outsides made from others -/

/-- The outside that gives only some of the answers. -/
def only (O : Outside I σ) (P : Exchange I → Prop) : Outside I σ :=
  ⟨fun r s x s' => P ⟨r, x⟩ ∧ O.Answers r s x s'⟩

theorem Follows.only {P : Exchange I → Prop} {s s' : σ} {t : List (Exchange I)}
    (h : O.Follows s t s') (hP : ∀ e ∈ t, P e) : (O.only P).Follows s t s' := by
  induction h with
  | nil => exact .nil _
  | cons h ht ih =>
    obtain ⟨he, hrest⟩ := List.forall_mem_cons.mp hP
    exact .cons ⟨he, h⟩ (ih hrest)

theorem Follows.of_only {P : Exchange I → Prop} {s s' : σ} {t : List (Exchange I)}
    (h : (O.only P).Follows s t s') : O.Follows s t s' := by
  induction h with
  | nil => exact .nil _
  | cons h ht ih => exact .cons h.2 ih

/-- What every run ensures, the runs with some of the answers do. -/
theorem Ensures.only {P : Exchange I → Prop} {p : Program I α} (h : O.Ensures p s Q) :
    (O.only P).Ensures p s Q :=
  fun t a s' ht hs => h t a s' ht hs.of_only

/-- The outside that goes to some of the states only. -/
def within (O : Outside I σ) (P : σ → Prop) : Outside I σ :=
  ⟨fun r s x s' => P s' ∧ O.Answers r s x s'⟩

theorem Follows.of_within {P : σ → Prop} {s s' : σ} {t : List (Exchange I)}
    (h : (O.within P).Follows s t s') : O.Follows s t s' := by
  induction h with
  | nil => exact .nil _
  | cons h ht ih => exact .cons h.2 ih

/-- What every run ensures, the runs through some of the states do. -/
theorem Ensures.within {P : σ → Prop} {p : Program I α} (h : O.Ensures p s Q) :
    (O.within P).Ensures p s Q :=
  fun t a s' ht hs => h t a s' ht hs.of_within

/-- The outside that also keeps what was exchanged. -/
def logged (O : Outside I σ) : Outside I (σ × List (Exchange I)) :=
  ⟨fun r s x s' => O.Answers r s.1 x s'.1 ∧ s'.2 = s.2 ++ [⟨r, x⟩]⟩

theorem Follows.logged {s s' : σ} {t : List (Exchange I)} (h : O.Follows s t s')
    (log : List (Exchange I)) : O.logged.Follows (s, log) t (s', log ++ t) := by
  induction h generalizing log with
  | nil =>
    rw [List.append_nil]
    exact .nil _
  | @cons s m s' e t h ht ih =>
    have hrest := ih (log ++ [e])
    rw [List.append_assoc] at hrest
    exact .cons (m := (m, log ++ [e])) ⟨h, rfl⟩ hrest

theorem Follows.of_logged {s s' : σ × List (Exchange I)} {t : List (Exchange I)}
    (h : O.logged.Follows s t s') : O.Follows s.1 t s'.1 := by
  induction h with
  | nil => exact .nil _
  | cons h ht ih => exact .cons h.1 ih

/-- What every run ensures, it ensures with the exchanges kept. -/
theorem Ensures.logged {p : Program I α} {s : σ × List (Exchange I)} (h : O.Ensures p s.1 Q) :
    O.logged.Ensures p s fun a s' => Q a s'.1 :=
  fun t a s' ht hs => h t a s'.1 ht hs.of_logged

/-- The outside that gives any answer and keeps what was exchanged. -/
def recording (I : Interface) : Outside I (List (Exchange I)) :=
  ⟨fun r log a log' => log' = log ++ [⟨r, a⟩]⟩

theorem follows_recording_iff {log t log' : List (Exchange I)} :
    (recording I).Follows log t log' ↔ log' = log ++ t := by
  induction t generalizing log with
  | nil => rw [follows_nil_iff, List.append_nil]
  | cons e t ih =>
    rw [follows_cons_iff]
    constructor
    · rintro ⟨_, rfl, ht⟩
      rw [ih.mp ht, List.append_assoc, List.singleton_append]
    · rintro rfl
      exact ⟨log ++ [e], rfl, ih.mpr (by rw [List.append_assoc, List.singleton_append])⟩

/-- **What every recording of a program ensures holds of its transcripts.** -/
theorem Ensures.of_recording {p : Program I α} {log : List (Exchange I)}
    {Q : α → List (Exchange I) → Prop} (h : (recording I).Ensures p log Q)
    {t : List (Exchange I)} {a : α} (ht : p.Transcript t a) : Q a (log ++ t) :=
  h t a _ ht (follows_recording_iff.mpr rfl)

theorem ensures_recording {r : I.Request} {log : List (Exchange I)}
    {Q : I.Answer r → List (Exchange I) → Prop} (h : ∀ a, Q a (log ++ [⟨r, a⟩])) :
    (recording I).Ensures (Program.request r) log Q := by
  rw [ensures_request]
  rintro a _ rfl
  exact h a

/-- The outside that gives any answer of a kind, and of which nothing else is known. -/
def giving (P : Exchange I → Prop) : Outside I Unit := ⟨fun r _ a _ => P ⟨r, a⟩⟩

/-- **What every run with answers of a kind ensures holds of the transcripts with such answers.** -/
theorem Ensures.of_giving {P : Exchange I → Prop} {p : Program I α} {Q : α → Unit → Prop}
    (h : (giving P).Ensures p () Q) {t : List (Exchange I)} {a : α} (ht : p.Transcript t a)
    (hP : ∀ e ∈ t, P e) : Q a () := by
  refine h t a () ht ?_
  clear ht
  induction t with
  | nil => exact .nil ()
  | cons e t ih =>
    obtain ⟨he, hrest⟩ := List.forall_mem_cons.mp hP
    exact .cons he (ih hrest)

theorem ensures_giving {P : Exchange I → Prop} {r : I.Request} {Q : I.Answer r → Unit → Prop}
    (h : ∀ a, P ⟨r, a⟩ → Q a ()) : (giving P).Ensures (Program.request r) () Q := by
  rw [ensures_request]
  exact fun a _ ha => h a ha

/-- A program whose requests all preserve a property preserves it. -/
theorem ensures_of_asks {P : I.Request → Prop} {R : σ → Prop} {p : Program I α}
    (hp : p.Asks P) (step : ∀ r s x s', P r → O.Answers r s x s' → R s → R s') (hs : R s) :
    O.Ensures p s fun _ s' => R s' :=
  fun t a _ ht hf => hf.invariant (fun e he m m' hm => step e.request m e.answer m'
    (hp t a ht e he) hm) hs

end Outside
end AccessControl
