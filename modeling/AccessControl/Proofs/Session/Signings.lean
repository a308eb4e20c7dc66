import AccessControl.Proofs.Session.SignOut

/-! # What was signed

In the course of exchanges claims are signed for tokens, and texts come of it (`signings`).  A
service draws the key of a token before it signs the claims, and signs them once at the most.  So
the keys that were signed are, in their order, some of those that were drawn, whatever calls follow
one another (`Course.signsDrawn`); **and if no identifier is given twice, no two tokens have the
same key**.
-/
namespace AccessControl.Session
open World Outside Program
open scoped List
variable {α β : Type} {d : Deployment} {claims : Token.Claims} {text : String} {log : Log}
  {w w' : World}

/-- The claims that were signed in the course of exchanges, with what came of it. -/
def signings (log : Log) : List (Token.Claims × String) :=
  log.filterMap fun
    | ⟨.sign claims, .ok text⟩ => some (claims, text)
    | _ => none

theorem mem_signings : (claims, text) ∈ signings log ↔ ⟨.sign claims, .ok text⟩ ∈ log := by
  rw [signings, List.mem_filterMap]
  constructor
  · rintro ⟨e, he, h⟩
    split at h
    · cases Option.some.inj h
      exact he
    · cases h
  · exact fun h => ⟨_, h, rfl⟩

theorem signings_append (log log' : Log) :
    signings (log ++ log') = signings log ++ signings log' := List.filterMap_append ..

/-- The keys in the claims that were signed. -/
def signedKeys (log : Log) : List (Except Rejection TokenKey) :=
  (signings log).map fun signing => signing.1.key

/-- The keys that may be made of the identifiers given. -/
def drawnKeys (log : Log) : List (Except Rejection TokenKey) :=
  (identifiers log).map fun uuid => .ok ⟨uuid⟩

theorem signedKeys_append (log log' : Log) :
    signedKeys (log ++ log') = signedKeys log ++ signedKeys log' := by
  rw [signedKeys, signings_append, List.map_append, signedKeys, signedKeys]

theorem drawnKeys_append (log log' : Log) :
    drawnKeys (log ++ log') = drawnKeys log ++ drawnKeys log' := by
  rw [drawnKeys, identifiers_append, List.map_append, drawnKeys, drawnKeys]

/-- What was signed has its key among those that were signed. -/
theorem singleton_sublist_signedKeys (h : (claims, text) ∈ signings log) :
    [claims.key] <+ signedKeys log :=
  List.singleton_sublist.mpr (List.mem_map.mpr ⟨_, h, rfl⟩)

/-- Identifiers that differ make keys that differ. -/
theorem nodup_signedKeys (h : signedKeys log <+ drawnKeys log)
    (hdistinct : (identifiers log).Nodup) : (signedKeys log).Nodup := by
  refine h.nodup (hdistinct.map fun uuid uuid' heq => ?_)
  cases heq
  rfl

/-! ## The keys that a step signs -/

/-- **A step signs one token at the most for each of some keys**, in their order. -/
def SignsFor (keys : List (Except Rejection TokenKey)) (x : Service α) : Prop :=
  ∀ log r, x.run.Transcript log r → signedKeys log <+ keys

/-- A request does not sign anything. -/
def SignsNothing (r : Backend.Request) : Prop := ∀ claims, r ≠ .sign claims

theorem IssuesNothing.signsNothing {r : Backend.Request} (h : IssuesNothing r) :
    SignsNothing r := by
  rintro claims rfl
  exact h

theorem signedKeys_eq_nil (h : ∀ e ∈ log, SignsNothing e.request) : signedKeys log = [] := by
  rw [signedKeys, List.map_eq_nil_iff, signings, List.filterMap_eq_nil_iff]
  intro e he
  split
  · exact absurd rfl (h _ he _)
  · rfl

namespace SignsFor
variable {keys later : List (Except Rejection TokenKey)} {x : Service α} {f : α → Service β}

theorem bind (hx : SignsFor keys x) (hf : ∀ a, SignsFor later (f a)) :
    SignsFor (keys ++ later) (x >>= f) := by
  intro log r h
  rcases transcript_run_bind_iff.mp h with ⟨t, a, u, rfl, ht, hu⟩ | ⟨failure, -, ht⟩
  · rw [signedKeys_append]
    exact (hx t _ ht).append (hf a u r hu)
  · exact (hx log _ ht).trans (List.sublist_append_left ..)

theorem of_asks (hx : x.run.Asks SignsNothing) : SignsFor [] x := by
  intro log r h
  rw [signedKeys_eq_nil (hx log r h)]

/-- A step that signs nothing may come first. -/
theorem after (hx : x.run.Asks SignsNothing) (hf : ∀ a, SignsFor keys (f a)) :
    SignsFor keys (x >>= f) := (of_asks hx).bind hf

/-- A step that signs nothing may come last. -/
theorem before (hx : SignsFor keys x) (hf : ∀ a, (f a).run.Asks SignsNothing) :
    SignsFor keys (x >>= f) := by
  have hboth := hx.bind fun a => of_asks (hf a)
  rwa [List.append_nil] at hboth

end SignsFor

theorem signsFor_sign (claims : Token.Claims) : SignsFor [claims.key] (Backend.sign claims) := by
  intro log r h
  obtain rfl := transcript_request_iff.mp h
  cases r with
  | error failure => exact List.nil_sublist _
  | ok text => exact List.Sublist.refl _

/-- **A token is signed with its key, and only once.** -/
theorem signsFor_issueWith (subject : Token.Subject) (kind : Token.Kind)
    (refreshKey : Option TokenKey) (key : TokenKey) :
    SignsFor [.ok key] (issueWith d subject kind refreshKey key) := by
  refine .after (asks_backend .now nofun).run_lift fun issuedAt => ?_
  split
  · intro log r h
    obtain ⟨rfl, -⟩ := transcript_run_throw_iff.mp h
    exact List.nil_sublist _
  · rename_i expiresAt _
    refine .after (asks_backend .fresh nofun).run_lift fun tokenId => ?_
    have hsign := signsFor_sign
      (claimsFor d.tokens subject kind refreshKey key tokenId issuedAt expiresAt)
    rw [key_claimsFor] at hsign
    refine hsign.before fun text => ?_
    refine Asks.run_bind (asks_backend (.createToken _) nofun) fun _ => ?_
    exact Asks.run_bind (asks_store nofun).run_lift fun _ => asks_run_pure _

/-! ## Keys that were drawn -/

/-- **The keys of the tokens that a service signs were drawn for them**, in the same order. -/
def SignsDrawn (x : Service α) : Prop :=
  ∀ log r, x.run.Transcript log r → signedKeys log <+ drawnKeys log

/-- The key is drawn first, and then the token is signed. -/
theorem signsDrawn_issue (subject : Token.Subject) (kind : Token.Kind)
    (refreshKey : Option TokenKey) : SignsDrawn (issue d subject kind refreshKey) := by
  intro log r h
  obtain ⟨uuid, rest, rfl, hissue⟩ := transcript_issue h
  have hsigned : signedKeys rest <+ [.ok ⟨uuid⟩] :=
    signsFor_issueWith subject kind refreshKey _ rest r hissue
  exact hsigned.trans (List.sublist_append_left [.ok ⟨uuid⟩] (drawnKeys rest))

/-- **Every call signs tokens with the keys that it has drawn.** -/
theorem Call.signsDrawn (c : Call) : SignsDrawn (c.service d) := by
  have habout : AboutIssuing fun log => signedKeys log <+ drawnKeys log := by
    refine ⟨fun {log log'} h h' => ?_, fun h => ?_⟩
    · rw [signedKeys_append, drawnKeys_append]
      exact h.append h'
    · rw [signedKeys_eq_nil fun e he => (h e he).signsNothing]
      exact List.nil_sublist _
  exact habout.call signsDrawn_issue c

namespace Course
variable {start : World}

/-- **Whatever calls follow one another, tokens are signed with the keys that were drawn.** -/
theorem signsDrawn (h : Course d start log w) : signedKeys log <+ drawnKeys log := by
  induction h with
  | start => exact List.Sublist.refl _
  | drift _ _ ih => exact ih
  | @call log log' _ _ _ c _ ht _ ih =>
    rw [signedKeys_append, drawnKeys_append]
    exact ih.append (c.signsDrawn log' _ ht)

/-- What follows a course, continues it. -/
theorem trans {log' : Log} (h : Course d start log w) (h' : Course d w log' w') :
    Course d start (log ++ log') w' := by
  induction h' with
  | start => exact (List.append_nil log).symm ▸ h
  | drift _ hw ih => exact ih.drift hw
  | call _ c ht hf ih =>
    rw [← List.append_assoc]
    exact ih.call c ht hf

/-- **What was signed is as the signer signs it.** -/
theorem signed (h : Course d start log w) (hmem : (claims, text) ∈ signings log) :
    text = start.signer.sign claims := by
  induction h with
  | start => exact absurd hmem List.not_mem_nil
  | drift _ _ ih => exact ih hmem
  | @call log log' v _ hcourse _ _ _ hf ih =>
    rw [signings_append, List.mem_append] at hmem
    rcases hmem with hold | hnew
    · exact ih hold
    · obtain ⟨m, m', hsigner, u, hu, hsigned⟩ := exists_answers_of_mem hf (mem_signings.mp hnew)
      rw [sign_eq_of_answered hsigned rfl, hu.signer, hsigner, hcourse.signer]

end Course
end AccessControl.Session
