import AccessControl.Proofs.Concurrency.Refill
import AccessControl.Proofs.Concurrency.RefreshAndRotate
import AccessControl.Proofs.Session.Told

/-! # Validations beside a rotation

A validation that finds a stamp in the store caches it.  If it has looked before a rotation writes
the new stamp, it puts the old one back, and may do so at any time: before the write, between the
write and the removal of the records, while the records are removed, or when all is over.  The
rotation removes what is cached of the stamp three times; **only a refill after the last of them
(`LateRefill`) is not undone**.

If there is none, then from the end of the rotation on the cache holds no stamp of the user but the
new one, whatever other calls are in flight; and so every validation that starts afterwards refuses
a token that was issued before.
-/
namespace AccessControl.Concurrency
open Session Outside Program World
variable {ι : Type} [DecidableEq ι] {d : Deployment} {user : UserId} {stamp fresh : SecurityStamp}
  {calls : ι → Call} {j : ι} {t earlier later : List (ι × Exchange Backend)} {w w' : World}
  {token : String}

/-- The change that a rotation makes: its caller writes the stamp of a user. -/
def Rotates (j : ι) (user : UserId) (i : ι) (e : Exchange Backend) : Prop :=
  i = j ∧ ∃ stamp, e = ⟨.updateStamp user stamp, .ok ()⟩

/-- **A rotation for a user has succeeded beside any number of other calls**, of which none is a
rotation for the same user.  They may have ended or not. -/
structure RotatedAmong (d : Deployment) (user : UserId) (fresh : SecurityStamp) (calls : ι → Call)
    (j : ι) (t : List (ι × Exchange Backend)) : Prop where
  rotation : (rotateStamp user).run.Transcript (share j t) (.ok fresh)
  others : ∀ i, i ≠ j → calls i ≠ .rotateStamp user
  begun : ∀ i, i ≠ j → ((calls i).service d).run.Begins (share i t)

/-- **A token was issued to a user before some exchanges**: it was signed with a stamp that is not
given in their course. -/
def IssuedBefore (signer : Jwt.Signer) (user : UserId) (t : Log) (token : String) : Prop :=
  ∃ claims stamp, claims.subject = user.text ∧ claims.stamp? = some (SecurityStamp.text stamp) ∧
    token = signer.sign claims ∧ stamp.uuid ∉ identifiers t

/-- Every token that was signed in a history was issued before what follows, if no identifier is
given twice. -/
theorem issuedBefore_of_history {start : World} {before log : Log}
    (h : History d start before w) (hsigned : Signed before user token)
    (hfresh : Fresh start (before ++ log)) : IssuedBefore w.signer user log token := by
  obtain ⟨claims, hsubject, hsign⟩ := hsigned
  obtain ⟨htoken, owner, stamp, -, hstamp, hknown⟩ := h.sound.signed claims token hsign
  refine ⟨claims, stamp, hsubject, hstamp, ?_, hfresh.not_mem hknown⟩
  rw [h.sound.signer]
  exact htoken

namespace RotatedAmong

/-- Once the rotation has ended, it has so at every time. -/
theorem of_append (h : RotatedAmong d user fresh calls j (earlier ++ later))
    (hended : share j later = []) : RotatedAmong d user fresh calls j earlier where
  rotation := by
    have hrotation := h.rotation
    rwa [share_append, hended, List.append_nil] at hrotation
  others := h.others
  begun i hi := by
    have hbegun := h.begun i hi
    rw [share_append] at hbegun
    exact hbegun.of_append

/-- Only the rotation writes the stamp of the user. -/
theorem keepsStamp (h : RotatedAmong d user fresh calls j t) {i : ι} (hi : i ≠ j) :
    ∀ e ∈ share i t, KeepsStamp user e.request :=
  (Call.asks_keepsStamp (h.others i hi)).begins (h.begun i hi)

/-- **The stamp is written once**: from then on it is the one that is stored and found. -/
theorem cut (h : RotatedAmong d user fresh calls j t) (hf : outside.Follows w (whole t) w') :
    ∃ before after : List (ι × Exchange Backend),
      t = before ++ (j, ⟨.updateStamp user fresh, .ok ()⟩) :: after ∧
      w'.store.stampOf user = some fresh ∧
      ∀ found, ⟨.findStamp user, .ok found⟩ ∈ whole after → found = some fresh := by
  obtain ⟨_, _, _, _, heq⟩ := transcript_rotateStamp_ok h.rotation
  obtain ⟨before, after, rfl, -, hafter⟩ := exists_of_share_eq heq
  obtain ⟨m, m', -, hwrite, hrest⟩ := follows_whole_cut hf
  have hwritten : m'.store.stampOf user = some fresh := by
    rw [Store.stampOf_updateStamp (updateStamp_of_answers hwrite), if_pos rfl]
  have hremoves : ∀ e ∈ share j after, KeepsStamp user e.request := by simp [hafter, KeepsStamp]
  have hkept : ∀ e ∈ whole after, KeepsStamp user e.request := by
    intro e he
    obtain ⟨i, hi⟩ := mem_whole_iff.mp he
    by_cases hij : i = j
    · subst hij
      exact hremoves e hi
    · refine h.keepsStamp hij e ?_
      rw [share_append, share_cons_of_ne (Ne.symm hij)]
      exact List.mem_append_right _ hi
  obtain ⟨hstored, hfound⟩ := follows_stampOf user hrest hkept
  rw [hwritten] at hstored hfound
  exact ⟨before, after, rfl, hstored, hfound⟩

/-- **The rotation tends to the stamp**: it removes what is cached of it after the write. -/
theorem tended (h : RotatedAmong d user fresh calls j t)
    (hprompt : ¬LateRefill (Rotates j user) (.securityStamp user) t) :
    Tended d.catalog (Rotates j user) (.securityStamp user) t where
  filled i before value seconds a after heq := by
    by_cases hij : i = j
    · subst hij
      have horder : KeepsOrder d.catalog (rotateStamp user) :=
        Call.keepsOrder d (.rotateStamp user)
      exact (horder.orderly h.rotation).filled before after _ value seconds a heq
    · exact (((calls i).keepsOrder d).begins (h.begun i hij)).filled before after _ value seconds a
        heq
  writes i e hchange := by
    obtain ⟨-, stamp, rfl⟩ := hchange
    rfl
  tidied i before change after heq hchange := by
    obtain ⟨rfl, stamp, rfl⟩ := hchange
    obtain ⟨-, -, removed, count, removed', rfl⟩ := rotateStamp_cut (heq ▸ h.rotation)
    exact ⟨_, List.mem_cons_self, rfl⟩
  prompt := hprompt

/-- **Every stamp of the user that is cached is the new one**, once the rotation has ended. -/
theorem cached (h : RotatedAmong d user fresh calls j t)
    (hprompt : ¬LateRefill (Rotates j user) (.securityStamp user) t)
    (hf : outside.Follows w (whole t) w') {value : String} {item : Cached.Stamp}
    (hheld : w'.Holds (.securityStamp user) value) (hitem : Json.decode? value = some item) :
    item.stamp = fresh := by
  obtain ⟨before, after, hcut, -, hfound⟩ := h.cut hf
  have hwrite : Rotates j user j ⟨.updateStamp user fresh, .ok ()⟩ := ⟨rfl, fresh, rfl⟩
  have hmem : (j, ⟨.updateStamp user fresh, .ok ()⟩) ∈ t := by
    rw [hcut]
    exact List.mem_append_right _ List.mem_cons_self
  rcases (h.tended hprompt).origin rfl hf hheld with
    hspoilt | ⟨-, hunchanged, -⟩ | ⟨i, before', after', look, more, hmade, hderived, -, hunchanged⟩
  · exact absurd (hitem.symm.trans hspoilt) (by simp)
  · exact absurd hwrite (hunchanged j _ (mem_share.mpr hmem))
  · -- The value was made from a lookup that came after the write.
    rcases mem_or_of_append_cons_eq (hcut.symm.trans hmade) with hlate | ⟨-, between, rfl⟩
    · rcases List.mem_cons.mp hlate with heq | hlate
      · obtain ⟨-, rfl⟩ := Prod.mk.inj heq
        cases hderived
      · exact absurd hwrite (hunchanged j _ (mem_share.mpr hlate))
    · cases hderived with
      | securityStamp _ found =>
        obtain rfl := Json.eq_of_decode?_write hitem
        refine Option.some.inj (hfound (some found) ?_)
        rw [whole_append, whole_cons]
        exact List.mem_append_right _ List.mem_cons_self

/-- **Every other stamp of the user is dead**, once the rotation has ended. -/
theorem dead (h : RotatedAmong d user fresh calls j t)
    (hprompt : ¬LateRefill (Rotates j user) (.securityStamp user) t)
    (hf : outside.Follows w (whole t) w') (hne : stamp ≠ fresh) : Dead user stamp w' where
  stored hstored := by
    obtain ⟨-, -, -, hwritten, -⟩ := h.cut hf
    exact hne (Option.some.inj (hstored.symm.trans hwritten))
  cached value item hheld hitem := by
    rw [h.cached hprompt hf hheld hitem]
    exact hne.symm

/-- **It is dead at every time from then on.** -/
theorem dead_since (h : RotatedAmong d user fresh calls j (earlier ++ later))
    (hended : share j later = [])
    (hprompt : ¬LateRefill (Rotates j user) (.securityStamp user) (earlier ++ later))
    (hf : outside.Follows w (whole earlier) w') (hne : stamp ≠ fresh) : Dead user stamp w' := by
  refine (h.of_append hended).dead (fun hlate => hprompt (hlate.append ?_)) hf hne
  rintro _ _ ⟨rfl, -⟩
  exact hended

/-- It is hidden from then on, whoever asks. -/
theorem hides (h : RotatedAmong d user fresh calls j (earlier ++ later))
    (hended : share j later = [])
    (hprompt : ¬LateRefill (Rotates j user) (.securityStamp user) (earlier ++ later))
    (hf : outside.Follows w (whole (earlier ++ later)) w') (hne : stamp ≠ fresh) :
    ∀ e ∈ whole later, HidesStamp user stamp e := by
  refine hf.forall_later fun before i e after m m' hcut hbefore hanswers => ?_
  rw [hcut, share_append] at hended
  rw [hcut, ← List.append_assoc] at h hprompt
  have hrest : share j ((i, e) :: after) = [] := (List.append_eq_nil_iff.mp hended).2
  exact hidesStamp_of_answers (h.dead_since hrest hprompt hbefore hne) hanswers

/-- **A validation that starts afterwards refuses a token with another stamp**, unless a store has
failed. -/
theorem concludes (h : RotatedAmong d user fresh calls j (earlier ++ later))
    (hended : share j later = [])
    (hprompt : ¬LateRefill (Rotates j user) (.securityStamp user) (earlier ++ later))
    (hf : outside.Follows w (whole (earlier ++ later)) w') (hne : stamp ≠ fresh)
    {claims : Token.Claims} (hsubject : claims.subject = user.text)
    (hstamp : claims.stamp? = some stamp.text) {i : ι} (hstarts : share i earlier = [])
    {kind : Token.Kind} {r : Except Failure Token.Validated}
    (ht : (validate d (w.signer.sign claims) kind).run.Transcript (share i (earlier ++ later)) r) :
    ∃ verdict rest,
      share i (earlier ++ later) = ⟨.verify (w.signer.sign claims), verdict⟩ :: rest ∧
        Concludes (StoreFailed · (share i (earlier ++ later)))
          (.error (.rejected (refusal d.tokens kind verdict))) r := by
  have huser : claims.userId = .ok user := by
    rw [Token.Claims.userId, hsubject, UserId.ofText_text]
  have hclaimed : claims.stamp = .ok stamp := by
    simp [Token.Claims.stamp, hstamp, Except.toOption]
  have hverified : ∀ c, ⟨.verify (w.signer.sign claims), .ok c⟩ ∈ share i (earlier ++ later) →
      c = claims := by
    intro c hc
    obtain ⟨now, hverdict⟩ := exists_verified hf (mem_whole_of_mem_share hc)
    exact Jwt.Signer.eq_of_verify_sign hverdict
  have hhidden : ∀ e ∈ share i (earlier ++ later), HidesStamp user stamp e := by
    rw [share_append, hstarts, List.nil_append]
    exact fun e he => h.hides hended hprompt hf hne e (mem_whole_of_mem_share he)
  have hchecked : Learns (StoreFailed · (share i (earlier ++ later)))
      (· ∈ share i (earlier ++ later)) (do checkStamp d user claims; checkKey d user claims)
      (Except.mapError .rejected (.error .invalidSecurityStamp)) :=
    (learns_checkStamp_of_hidden (admits_storeFailed _) hhidden hclaimed).bind_error _
  obtain ⟨verdict, rest, heq, hends⟩ := concludes_validate ht hverified huser hchecked
  rw [outcome_refused] at hends
  exact ⟨verdict, rest, heq, hends⟩

end RotatedAmong

/-- **Rotation closes every refill window that it can.**  A rotation for a user succeeds beside any
number of other calls, and nobody who has looked up the stamp before its write caches it after its
last removal.  Then the cache holds no stamp of the user but the stored one.  Every token that was
issued to the user before is refused from then on, whether its validation is the only call or starts
while others are in flight; unless its verification or the check of its claims is against it, it is
refused for its stamp. -/
theorem rotation_closes_windows (h : RotatedAmong d user fresh calls j t)
    (hprompt : ¬LateRefill (Rotates j user) (.securityStamp user) t)
    (hfollows : outside.Follows w (whole t) w') :
    (w'.store.stampOf user = some fresh ∧
      ∀ value (item : Cached.Stamp), w'.Holds (.securityStamp user) value →
        Json.decode? value = some item → w'.store.stampOf user = some item.stamp) ∧
    ∀ token kind, IssuedBefore w.signer user (whole t) token →
      Refuses d kind user token (validate d token kind) w' ∧
      ∀ earlier later i r, t = earlier ++ later → share j later = [] → share i earlier = [] →
        (validate d token kind).run.Transcript (share i t) r →
          ∃ verdict rest, share i t = ⟨.verify token, verdict⟩ :: rest ∧
            Concludes (StoreFailed · (share i t))
              (.error (.rejected (refusal d.tokens kind verdict))) r := by
  obtain ⟨_, _, -, hstored, -⟩ := h.cut hfollows
  refine ⟨⟨hstored, fun value item hheld hitem => ?_⟩, ?_⟩
  · rw [hstored, h.cached hprompt hfollows hheld hitem]
  · rintro token kind ⟨claims, stamp, hsubject, hstamp, rfl, hold⟩
    -- The new stamp is given in the course of the rotation, so it is another one.
    have hne : stamp ≠ fresh := by
      rintro rfl
      obtain ⟨_, _, _, _, heq⟩ := transcript_rotateStamp_ok h.rotation
      refine hold (mem_identifiers.mpr (mem_whole_of_mem_share (i := j) ?_))
      rw [heq]
      exact List.mem_cons_self
    constructor
    · have hsigner : w'.signer = w.signer := signer_of_follows hfollows
      exact (refuses_of_dead (h.dead hprompt hfollows hne) hsubject hstamp (by rw [hsigner])).1 kind
    · rintro earlier later i r rfl hended hstarts ht
      exact h.concludes hended hprompt hfollows hne hsubject hstamp hstarts ht

/-! ## One user who is validated amid a rotation -/

/-- The one user is validated while the stamp of the user is rotated. -/
def rotateAndValidate (token : String) : Caller → Call
  | .first => .rotateStamp alice.userId
  | .second => .validate token .access

/-- **A rotation that goes on alone leaves no refill late**, if it was interrupted after its first
exchange: the last of all exchanges is its last removal. -/
theorem not_lateRefill_amid {i : ι} {e : Exchange Backend} {asked rest : Log} (hij : i ≠ j)
    (h : (rotateStamp user).run.Transcript (share j (solo j [e] ++ (solo i asked ++ solo j rest)))
      (.ok fresh)) :
    ¬LateRefill (Rotates j user) (.securityStamp user)
      (solo j [e] ++ (solo i asked ++ solo j rest)) := by
  obtain ⟨removed, removed', count, removed'', heq⟩ := transcript_rotateStamp_ok h
  rw [share_append, share_append, share_solo_self, share_solo_self, share_solo_of_ne hij] at heq
  have hrest : rest = _ := (List.cons.inj heq).2
  have hlast : (solo j [e] ++ (solo i asked ++ solo j rest)).getLast? =
      some (j, ⟨.cacheDelete (CacheKey.securityStamp user).text, removed''⟩) := by
    rw [← List.append_assoc, List.getLast?_append, hrest]
    rfl
  obtain ⟨before, hends⟩ := List.getLast?_eq_some_iff.mp hlast
  exact not_lateRefill_of_removal hends (fun _ _ _ hchange => hchange.1)
    fun _ he => absurd he List.not_mem_nil

/-- **A user is validated when a rotation has begun but not yet written the new stamp**: the access
token is accepted.  Once the rotation has ended it is refused. -/
theorem rotation_closes_windows_amid :
    ∃ (pair : Token.Pair) (t : List (Caller × Exchange Backend)) (fresh : SecurityStamp)
      (w' : World),
      World.run (issuePair lone alice).run oneUser = (.ok pair, signedIn) ∧
      (rotateStamp alice.userId).run.Transcript (share .first t) (.ok fresh) ∧
      (validate lone pair.access.text .access).run.Transcript (share .second t)
        (.ok ⟨alice.userId, accessClaims⟩) ∧
      outside.Follows signedIn (whole t) w' ∧
      w'.store.stampOf alice.userId = some fresh ∧
      ∀ kind, Refuses lone kind alice.userId pair.access.text
        (validate lone pair.access.text kind) w' := by
  obtain ⟨pair, hpair, -, haccess⟩ := run_issuePair_oneUser
  have hdraw : World.run (liftM Backend.fresh : Service Uuid).run signedIn =
      (.ok (.repeating 5), { signedIn with drawn := 6 }) := rfl
  obtain ⟨cache, hcache⟩ :=
    run_validate_cachesOnly lone pair.access.text .access { signedIn with drawn := 6 }
  have hvalidate : World.run (validate lone pair.access.text .access).run
      { signedIn with drawn := 6 } =
        (.ok ⟨alice.userId, accessClaims⟩, { signedIn with drawn := 6, cache }) :=
    Prod.ext (haccess ▸ accepts_signedIn 6) hcache
  obtain ⟨cache', hrest⟩ := run_afterDraw (w := { signedIn with drawn := 6, cache })
    (updateStamp_signedIn ⟨.repeating 5⟩)
  obtain ⟨t, ht, hfirst, hsecond, hfollows⟩ := exists_amid (f := fun uuid => do
    writeStamp alice.userId ⟨uuid⟩
    forgetTokens alice.userId
    return SecurityStamp.mk uuid) hdraw hvalidate hrest
  have hrotation :
      (rotateStamp alice.userId).run.Transcript (share .first t) (.ok ⟨.repeating 5⟩) := by
    rw [rotateStamp_eq]
    exact hfirst
  have hamong : RotatedAmong lone alice.userId ⟨.repeating 5⟩ (rotateAndValidate pair.access.text)
      .first t := by
    refine ⟨hrotation, fun caller hcaller => ?_, fun caller hcaller => ?_⟩
    · cases caller with
      | first => exact absurd rfl hcaller
      | second => exact nofun
    · cases caller with
      | first => exact absurd rfl hcaller
      | second => exact hsecond.begins
  have hprompt : ¬LateRefill (Rotates .first alice.userId) (.securityStamp alice.userId) t := by
    obtain ⟨asked, rest, hcut⟩ : ∃ asked rest : Log,
        t = solo .first ([⟨.fresh, .repeating 5⟩] : Log) ++
          (solo .second asked ++ solo .first rest) := ⟨_, _, ht⟩
    rw [hcut] at hrotation ⊢
    exact not_lateRefill_amid (by decide) hrotation
  have hissued : IssuedBefore signedIn.signer alice.userId (whole t) pair.access.text := by
    obtain ⟨htpair, hfpair⟩ := transcript_and_follows_of_run hpair
    have hbefore : History lone oneUser _ signedIn :=
      History.start.call (.issuePair alice) rfl htpair (follows_of_faultless hfpair)
    rw [List.nil_append] at hbefore
    refine issuedBefore_of_history hbefore (signed_of_issuePair htpair).1 ?_
    exact fresh_of_drawn (follows_append_iff.mpr ⟨_, hfpair, hfollows⟩) (by decide : 6 ≤ 16)
  obtain ⟨⟨hstored, -⟩, hrefuses⟩ :=
    rotation_closes_windows hamong hprompt (follows_of_faultless hfollows)
  exact ⟨pair, t, _, _, hpair, hrotation, hsecond, follows_of_faultless hfollows, hstored,
    fun kind => (hrefuses pair.access.text kind hissued).1⟩

end AccessControl.Concurrency
