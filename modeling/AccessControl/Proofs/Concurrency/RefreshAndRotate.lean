import AccessControl.Proofs.Program.Interleaving
import AccessControl.Proofs.Session.Exchange
import AccessControl.Proofs.Session.Faultless
import AccessControl.Proofs.World.Reading

/-! # A refresh beside a rotation

A refresh validates the refresh token, looks up the stamp of its user, and issues an access token
with the stamp that it has found.  A rotation has one write of the stamp.

* If the stamp is looked up before the write, the access token has the old stamp.  That stamp dies
  with the rotation, so the token is refused from then on.
* If it is looked up after the write (`RefreshOvertaken`), the access token has the new stamp,
  though the refresh token had the old one.  It is accepted like any token of the user: as long as
  its times hold and its key is known to be live.
-/
namespace AccessControl.Concurrency
open Session Outside Program World

/-- **A refresh is overtaken by a rotation**: the new stamp is written, and only then is the stamp
of the user looked up. -/
def RefreshOvertaken (user : UserId) (t : List (Caller × Exchange Backend)) : Prop :=
  ∃ (before after : List (Caller × Exchange Backend)) (stamp : SecurityStamp)
    (found : Except Failure (Option SecurityStamp)),
    t = before ++ (.second, ⟨.updateStamp user stamp, .ok ()⟩) :: after ∧
      ⟨.findStamp user, found⟩ ∈ part .first after

variable {d : Deployment} {user : UserId} {token : String} {issued : Token.Issued}
  {stamp fresh : SecurityStamp} {w w' : World}

/-! ## What the two exchange -/

section Exchanges
variable {t : Log}

/-- The stamp is written, and what is cached of it is removed before and after. -/
theorem transcript_writeStamp_ok {u : Unit} (h : (writeStamp user fresh).run.Transcript t (.ok u)) :
    ∃ removed removed', t = [⟨.cacheDelete (CacheKey.securityStamp user).text, removed⟩,
      ⟨.updateStamp user fresh, .ok ()⟩,
      ⟨.cacheDelete (CacheKey.securityStamp user).text, removed'⟩] := by
  obtain ⟨_, _, _, rfl, hbefore, h₁⟩ := transcript_run_bind_ok_iff.mp h
  obtain ⟨removed, rfl⟩ := transcript_remove hbefore
  obtain ⟨_, _, _, rfl, houtcome, h₂⟩ := transcript_run_bind_ok_iff.mp h₁
  obtain ⟨_, hended, hupdate⟩ := transcript_run_outcome_iff.mp houtcome
  obtain rfl := Except.ok.inj hended
  obtain ⟨_, _, _, rfl, hafter, h₃⟩ := transcript_run_bind_ok_iff.mp h₂
  obtain ⟨removed', rfl⟩ := transcript_remove hafter
  obtain ⟨rfl, rfl⟩ := transcript_run_conclude_iff.mp h₃
  obtain rfl := transcript_request_iff.mp hupdate
  exact ⟨removed, removed', rfl⟩

/-- The records are removed, and once more what is cached of the stamp. -/
theorem transcript_forgetTokens_ok {u : Unit} (h : (forgetTokens user).run.Transcript t (.ok u)) :
    ∃ count removed, t = [⟨.deleteTokens user, .ok count⟩,
      ⟨.cacheDelete (CacheKey.securityStamp user).text, removed⟩] := by
  obtain ⟨count, _, removed, _, rfl, hdelete, hrest⟩ := transcript_outcome_remove_ok h
  obtain rfl := transcript_request_iff.mp hdelete
  obtain ⟨rfl, -⟩ := transcript_run_pure_iff.mp hrest
  exact ⟨count, removed, rfl⟩

/-- **A rotation that succeeds has written its stamp once.** -/
theorem transcript_rotateStamp_ok (h : (rotateStamp user).run.Transcript t (.ok fresh)) :
    ∃ removed removed' count removed'',
      t = [⟨.fresh, fresh.uuid⟩, ⟨.cacheDelete (CacheKey.securityStamp user).text, removed⟩] ++
        ⟨.updateStamp user fresh, .ok ()⟩ ::
        [⟨.cacheDelete (CacheKey.securityStamp user).text, removed'⟩,
          ⟨.deleteTokens user, .ok count⟩,
          ⟨.cacheDelete (CacheKey.securityStamp user).text, removed''⟩] := by
  rw [rotateStamp_eq] at h
  obtain ⟨_, uuid, _, rfl, hlift, h₁⟩ := transcript_run_bind_ok_iff.mp h
  obtain ⟨_, huuid, hdraw⟩ := transcript_run_lift_iff.mp hlift
  obtain rfl := Except.ok.inj huuid
  obtain rfl := transcript_request_iff.mp hdraw
  obtain ⟨_, _, _, rfl, hwrite, h₂⟩ := transcript_run_bind_ok_iff.mp h₁
  obtain ⟨removed, removed', rfl⟩ := transcript_writeStamp_ok hwrite
  obtain ⟨_, _, _, rfl, hforget, h₃⟩ := transcript_run_bind_ok_iff.mp h₂
  obtain ⟨count, removed'', rfl⟩ := transcript_forgetTokens_ok hforget
  obtain ⟨rfl, hfresh⟩ := transcript_run_pure_iff.mp h₃
  obtain rfl := Except.ok.inj hfresh
  exact ⟨removed, removed', count, removed'', rfl⟩

/-- **A rotation that succeeds has written no other stamp**, and once it has written it only
removes, first what is cached of the stamp. -/
theorem rotateStamp_cut {before after : Log}
    (h : (rotateStamp user).run.Transcript (before ++ ⟨.updateStamp user stamp, .ok ()⟩ :: after)
      (.ok fresh)) :
    stamp = fresh ∧ (∀ e ∈ before, KeepsStamp user e.request) ∧
      ∃ removed count removed',
        after = [⟨.cacheDelete (CacheKey.securityStamp user).text, removed⟩,
          ⟨.deleteTokens user, .ok count⟩,
          ⟨.cacheDelete (CacheKey.securityStamp user).text, removed'⟩] := by
  obtain ⟨removed, removed', count, removed'', heq⟩ := transcript_rotateStamp_ok h
  obtain ⟨rfl, hwrite, rfl⟩ := eq_of_append_cons_eq
    (P := fun e => ∃ stamp, e.request = Backend.Request.updateStamp user stamp) heq ⟨stamp, rfl⟩
    (by simp) (by simp)
  cases hwrite
  exact ⟨rfl, by simp [KeepsStamp], removed', count, removed'', rfl⟩

/-- A refresh writes no stamp. -/
theorem keepsStamp_of_refreshAccess {r : Except Failure Token.Issued}
    (h : (refreshAccess d token).run.Transcript t r) : ∀ e ∈ t, KeepsStamp user e.request :=
  Call.asks_keepsStamp (c := .refreshAccess token) nofun t r h

end Exchanges

/-! ## The refresh, cut at its lookup -/

section Cut
variable {t before after : List (Caller × Exchange Backend)} {claims minted : Token.Claims}

/-- **What a refresh has exchanged when it succeeds**, cut at the lookup of the stamp for the new
token.  What it has issued is signed with the stamp that was found. -/
structure Refreshed (d : Deployment) (user : UserId) (signer : Jwt.Signer) (issued : Token.Issued)
    (stamp : SecurityStamp) (minted : Token.Claims) (t checked rest : Log) : Prop where
  cut : t = checked ++ ⟨.findStamp user, .ok (some stamp)⟩ :: rest
  claims : ∃ refreshKey tokenId issuedAt expiresAt, minted =
    claimsFor d.tokens ⟨user, stamp⟩ .access refreshKey issued.key tokenId issuedAt expiresAt
  text : issued.text = signer.sign minted
  /-- After the lookup there is no other. -/
  looks : ∀ e ∈ rest, e.request ≠ Backend.Request.findStamp user
  /-- After the lookup no stamp is revived. -/
  spares : ∀ stamp, ∀ e ∈ rest, Spares user stamp e.request

/-- **A refresh looks up the stamp of the user whom its token was signed for.** -/
theorem exists_refreshed
    (hrefresh : (refreshAccess d token).run.Transcript (part .first t) (.ok issued))
    (hfollows : outside.Follows w (both t) w') (htoken : token = w.signer.sign claims)
    (hsubject : claims.subject = user.text) :
    ∃ stamp minted checked rest,
      Refreshed d user w.signer issued stamp minted (part .first t) checked rest := by
  obtain ⟨said, owner, checked, stamp, linked, rest, heq, howner, -, hissue⟩ :=
    transcript_refreshAccess_ok hrefresh
  have hanswered : ∀ e ∈ part .first t, ∃ m m', m.signer = w.signer ∧
      outside.Answers e.request m e.answer m' := fun e he =>
    exists_answers_of_mem hfollows (mem_both_of_mem_part he)
  -- What is signed is verified as what was signed, so the user is the one that it was signed for.
  obtain rfl : said = claims := by
    obtain ⟨m, m', hsigner, ha⟩ := hanswered ⟨.verify token, .ok said⟩ (by simp [heq])
    obtain ⟨-, hverified⟩ := verify_answers ha
    rw [htoken, hsigner] at hverified
    exact Jwt.Signer.eq_of_verify_sign hverified.symm
  obtain rfl : owner = user := by
    rw [Token.Claims.userId, hsubject, UserId.ofText_text] at howner
    exact (Except.ok.inj howner).symm
  obtain ⟨tokenId, issuedAt, expiresAt, hsign⟩ := signs_of_issue hissue
  have hspares : ∀ stamp, ∀ e ∈ rest, Spares owner stamp e.request := fun _ =>
    asks_issue allows_spares d _ .access (some linked) (fun _ _ _ => trivial) rest _ hissue
  refine ⟨stamp, _, _, rest, heq, ⟨some linked, tokenId, issuedAt, expiresAt, rfl⟩, ?_,
    looks_of_issue hissue owner, hspares⟩
  obtain ⟨m, m', hsigner, v, hv, ha⟩ := hanswered _ (by
    rw [heq]
    exact List.mem_append_right _ (List.mem_cons_of_mem _ hsign))
  rw [sign_eq_of_answered ha rfl, hv.signer, hsigner]

/-! ## The rotation, cut at its write -/

/-- **An interleaving with a rotation that succeeds**, cut at the write of the new stamp, and with a
caller that writes no stamps. -/
structure Rotated (user : UserId) (fresh : SecurityStamp) (w w' : World)
    (before after : List (Caller × Exchange Backend)) : Prop where
  /-- What is looked up before the write is the stamp from before. -/
  earlier : ∀ found, ⟨.findStamp user, .ok found⟩ ∈ part .first before →
    found = w.store.stampOf user
  /-- What is looked up after it is the new stamp. -/
  later : ∀ found, ⟨.findStamp user, .ok found⟩ ∈ part .first after → found = some fresh
  stored : w'.store.stampOf user = some fresh
  kept : ∀ e ∈ part .first after, KeepsStamp user e.request
  /-- After the write what is cached of the stamp is removed. -/
  removes : ∃ removed rest,
    part .second after = ⟨.cacheDelete (CacheKey.securityStamp user).text, removed⟩ :: rest ∧
      ∀ stamp, ∀ e ∈ rest, Spares user stamp e.request
  follows : ∃ m, m.store.stampOf user = some fresh ∧ outside.Follows m (both after) w'

theorem rotated_of_cut
    (ht : t = before ++ (.second, ⟨.updateStamp user stamp, .ok ()⟩) :: after)
    (hkept : ∀ e ∈ part .first t, KeepsStamp user e.request)
    (hrotate : (rotateStamp user).run.Transcript (part .second t) (.ok fresh))
    (hfollows : outside.Follows w (both t) w') : Rotated user fresh w w' before after := by
  subst ht
  simp only [part_append, part_cons_self, part_first_cons_second] at hkept hrotate
  obtain ⟨hbefore, hafter⟩ := List.forall_mem_append.mp hkept
  obtain ⟨rfl, hbefore', removed, count, removed', heq⟩ := rotateStamp_cut hrotate
  obtain ⟨m, m', hm, hupdate, hrest⟩ := follows_cut hfollows
  have hwritten : m'.store.stampOf user = some stamp := by
    rw [Store.stampOf_updateStamp (updateStamp_of_answers hupdate), if_pos rfl]
  obtain ⟨-, hearlier⟩ := follows_stampOf user hm (forall_mem_both hbefore hbefore')
  obtain ⟨hstored, hlater⟩ := follows_stampOf user hrest
    (forall_mem_both hafter (by simp [heq]))
  rw [hwritten] at hstored hlater
  exact ⟨fun found h => hearlier found (mem_both_of_mem_part h),
    fun found h => hlater found (mem_both_of_mem_part h), hstored, hafter,
    ⟨removed, _, heq, by simp [Spares]⟩, m', hwritten, hrest⟩

/-- **Every other stamp of the user is dead in the end**, if the other caller does not revive it. -/
theorem Rotated.dead (h : Rotated user fresh w w' before after) (hne : stamp ≠ fresh)
    (hspared : ∀ e ∈ part .first after, Spares user stamp e.request) : Dead user stamp w' := by
  obtain ⟨removed, rest, hremoves, hrest⟩ := h.removes
  obtain ⟨m, hwritten, hfollows⟩ := h.follows
  have hkept := h.kept
  obtain ⟨meanwhile, later, rfl, hnothing, rfl⟩ := exists_of_part_eq_cons hremoves
  rw [part_append, part_first_cons_second] at hkept hspared
  obtain ⟨hkept, -⟩ := List.forall_mem_append.mp hkept
  obtain ⟨-, hspared⟩ := List.forall_mem_append.mp hspared
  obtain ⟨v, v', hv, hremove, hlater⟩ := follows_cut hfollows
  obtain ⟨hdrifts, hnone⟩ := remove_answers rfl hremove
  have hstored : v'.store.stampOf user = some fresh := by
    rw [hdrifts.store, ← hwritten]
    exact (follows_stampOf user hv (forall_mem_both hkept (by simp [hnothing]))).1
  have hdead : Dead user stamp v' := by
    refine ⟨fun h => ?_, fun value _ hheld => absurd hheld (hnone value)⟩
    exact hne (Option.some.inj (h.symm.trans hstored))
  refine hlater.invariant (fun e he _ _ ha hv => ?_) hdead
  exact hv.answers (forall_mem_both hspared (hrest stamp) e he) ha

/-! ## Which stamp the token has -/

section Values
variable (hrefreshed : ∃ checked rest,
    Refreshed d user w.signer issued stamp minted (part .first t) checked rest)
  (hkept : ∀ e ∈ part .first t, KeepsStamp user e.request)
  (hrotate : (rotateStamp user).run.Transcript (part .second t) (.ok fresh))
  (hfollows : outside.Follows w (both t) w')
include hrefreshed hkept hrotate hfollows

/-- **If the refresh is not overtaken, its token has the stamp from before**, which is dead once the
rotation has ended. -/
theorem dead_of_not_overtaken (hnot : ¬RefreshOvertaken user t) :
    w.store.stampOf user = some stamp ∧ (stamp ≠ fresh → Dead user stamp w') := by
  obtain ⟨checked, rest, hrefreshed⟩ := hrefreshed
  obtain ⟨_, _, _, _, heq⟩ := transcript_rotateStamp_ok hrotate
  obtain ⟨before, after, ht, -, -⟩ := exists_of_part_eq heq
  have hrotated := rotated_of_cut ht hkept hrotate hfollows
  have hcut := hrefreshed.cut
  rw [ht, part_append, part_first_cons_second] at hcut
  rcases mem_or_of_append_cons_eq hcut.symm with hlate | ⟨hearly, u, rfl⟩
  · exact absurd ⟨before, after, fresh, _, ht, hlate⟩ hnot
  · refine ⟨(hrotated.earlier _ hearly).symm, fun hne => hrotated.dead hne fun e he => ?_⟩
    exact hrefreshed.spares stamp e (List.mem_append_right _ he)

/-- **If the refresh is overtaken, its token has the new stamp.** -/
theorem current_of_overtaken (hover : RefreshOvertaken user t) :
    stamp = fresh ∧ w'.store.stampOf user = some fresh := by
  obtain ⟨checked, rest, hrefreshed⟩ := hrefreshed
  obtain ⟨before, after, written, found, ht, hfound⟩ := hover
  have hrotated := rotated_of_cut ht hkept hrotate hfollows
  have hcut := hrefreshed.cut
  rw [ht, part_append, part_first_cons_second] at hcut
  refine ⟨?_, hrotated.stored⟩
  -- The lookup that comes after the write is the last one or comes before it.
  rcases mem_or_of_append_cons_eq hcut.symm with hlate | ⟨-, u, rfl⟩
  · exact Option.some.inj (hrotated.later _ hlate)
  · exact absurd rfl (hrefreshed.looks _ (List.mem_append_right _ hfound))

end Values
end Cut

/-! ## Whether the token is accepted -/

/-- What is refused is not accepted without faults either. -/
theorem ne_ok_of_refuses {α : Type} {x : Service α} {kind : Token.Kind} {a : α}
    (h : Refuses d kind user token x w) : (World.run x.run w).1 ≠ .ok a := by
  obtain ⟨-, hall⟩ := h
  obtain ⟨_, _, -, hrefused⟩ := hall _ _ _ (transcript_exchanges _ w) (follows_exchanges _ w)
  rcases hrefused with hrefused | ⟨failure, hfailed, -⟩
  · rw [hrefused]
    exact nofun
  · rw [hfailed]
    exact nofun

/-- A token with the stamp that its user has is accepted without faults exactly if its times hold
and its key is known to be live. -/
theorem accepts_iff {minted : Token.Claims} {t checked rest : Log} {signer : Jwt.Signer}
    (hrefreshed : Refreshed d user signer issued stamp minted t checked rest)
    (hsigner : w.signer = signer) (hstored : w.store.stampOf user = some stamp) :
    (World.run (validate d issued.text .access).run w).1 = .ok ⟨user, minted⟩ ↔
      w.signer.checkClaims w.now minted = .ok () ∧ KnownLive user issued.key w := by
  obtain ⟨refreshKey, tokenId, issuedAt, expiresAt, rfl⟩ := hrefreshed.claims
  rw [hrefreshed.text, ← hsigner]
  exact run_validate_iff (checkClaims_claimsFor ..) (userId_claimsFor ..) (stamp_claimsFor ..)
    (key_claimsFor ..) hstored

/-- **A refresh escapes a rotation exactly if it is overtaken by it.**  A refresh token was signed
for a user, and a refresh with it and a rotation for the user both succeed, in whatever order
their requests are answered.  If the rotation has not overtaken the refresh, the new access token is
refused in every later world, for its stamp if for nothing else.  And after both have ended it is
accepted if and only if the rotation has overtaken the refresh, the times of the token hold and its
key is known to be live. -/
theorem refresh_escapes_iff_overtaken {start w₁ w₂ w₃ : World} {before after : Log}
    {t : List (Caller × Exchange Backend)}
    (hbefore : History d start before w₁) (hsigned : Signed before user token)
    (hrefresh : (refreshAccess d token).run.Transcript (part .first t) (.ok issued))
    (hrotate : (rotateStamp user).run.Transcript (part .second t) (.ok fresh))
    (hfollows : outside.Follows w₁ (both t) w₂) (hafter : History d w₂ after w₃)
    (hfresh : Fresh start (before ++ both t ++ after)) :
    (¬RefreshOvertaken user t →
      (∀ kind, Refuses d kind user issued.text (validate d issued.text kind) w₃) ∧
        Refuses d .refresh user issued.text (refreshAccess d issued.text) w₃) ∧
    ∃ minted : Token.Claims, issued.text = w₂.signer.sign minted ∧
      ((World.run (validate d issued.text .access).run w₂).1 = .ok ⟨user, minted⟩ ↔
        RefreshOvertaken user t ∧ w₂.signer.checkClaims w₂.now minted = .ok () ∧
          KnownLive user issued.key w₂) := by
  obtain ⟨claims, hsubject, hsign⟩ := hsigned
  have htoken : token = w₁.signer.sign claims := by
    rw [hbefore.sound.signer]
    exact (hbefore.sound.signed claims token hsign).1
  obtain ⟨stamp, minted, checked, rest, hrefreshed⟩ :=
    exists_refreshed hrefresh hfollows htoken hsubject
  have hkept : ∀ e ∈ part .first t, KeepsStamp user e.request :=
    keepsStamp_of_refreshAccess hrefresh
  have hsigner : w₂.signer = w₁.signer := signer_of_follows hfollows
  -- The stamp from before the rotation is none of the identifiers given since.
  have hdead : ¬RefreshOvertaken user t → Dead user stamp w₂ ∧ stamp.uuid ∉ identifiers after := by
    intro hnot
    obtain ⟨hstored, hdead⟩ :=
      dead_of_not_overtaken ⟨checked, rest, hrefreshed⟩ hkept hrotate hfollows hnot
    rw [List.append_assoc] at hfresh
    have hgiven := hfresh.not_mem (hbefore.sound.stored user stamp hstored)
    rw [identifiers_append, List.mem_append, not_or] at hgiven
    refine ⟨hdead fun heq => ?_, hgiven.2⟩
    obtain ⟨_, _, _, _, hgives⟩ := transcript_rotateStamp_ok hrotate
    have hmem : ⟨.fresh, stamp.uuid⟩ ∈ part .second t := by
      rw [hgives, heq]
      exact List.mem_cons_self
    exact hgiven.1 (mem_identifiers.mpr (mem_both_of_mem_part hmem))
  have hminted : minted.subject = user.text ∧ minted.stamp? = some stamp.text := by
    obtain ⟨_, _, _, _, rfl⟩ := hrefreshed.claims
    exact ⟨rfl, rfl⟩
  constructor
  · intro hnot
    obtain ⟨hdead, hgiven⟩ := hdead hnot
    have hsigner' : w₃.signer = w₂.signer := hafter.sound.signer
    refine refuses_of_dead (hafter.dead hgiven hdead) hminted.1 hminted.2 ?_
    rw [hsigner', hsigner]
    exact hrefreshed.text
  · have htext : issued.text = w₂.signer.sign minted := hsigner ▸ hrefreshed.text
    refine ⟨minted, htext, ?_⟩
    by_cases hover : RefreshOvertaken user t
    · obtain ⟨rfl, hstored⟩ :=
        current_of_overtaken ⟨checked, rest, hrefreshed⟩ hkept hrotate hfollows hover
      rw [accepts_iff hrefreshed hsigner hstored, and_iff_right hover]
    · obtain ⟨hrefuses, -⟩ :=
        refuses_of_dead (d := d) (hdead hover).1 hminted.1 hminted.2 htext
      exact iff_of_false (ne_ok_of_refuses (hrefuses .access)) fun h => hover h.1

/-! ## One caller at a time -/

section Alone
variable {α β γ : Type} {x : Service α} {q : Service γ} {r : Except Failure α}
  {s : Except Failure γ} {w₁ w₂ w₃ w₄ : World}

/-- **A service that is run after another**, without faults, does not overtake it. -/
theorem exists_not_overtaken (user : UserId) (hx : World.run x.run w₁ = (r, w₂))
    (hq : World.run q.run w₂ = (s, w₃)) :
    ∃ t : List (Caller × Exchange Backend), ¬RefreshOvertaken user t ∧
      x.run.Transcript (part .first t) r ∧ q.run.Transcript (part .second t) s ∧
      faultless.Follows w₁ (both t) w₃ := by
  obtain ⟨htx, hfx⟩ := transcript_and_follows_of_run hx
  obtain ⟨htq, hfq⟩ := transcript_and_follows_of_run hq
  refine ⟨alone .first (exchanges x.run w₁) ++ alone .second (exchanges q.run w₂), ?_, ?_, ?_, ?_⟩
  · rintro ⟨before, after, stamp, found, heq, hfound⟩
    -- Whatever comes after an exchange of the second caller is of the second caller.
    have hordered : (alone Caller.first (exchanges x.run w₁) ++
        alone .second (exchanges q.run w₂)).Pairwise
          fun e e' => e.1 = .second → e'.1 = .second := by
      rw [List.pairwise_append]
      refine ⟨List.pairwise_map.mpr (List.pairwise_of_forall fun _ _ => nofun),
        List.pairwise_map.mpr (List.pairwise_of_forall fun _ _ _ => rfl), fun e _ e' he' _ => ?_⟩
      obtain ⟨_, -, rfl⟩ := List.mem_map.mp he'
      rfl
    rw [heq, List.pairwise_append, List.pairwise_cons] at hordered
    exact nomatch hordered.2.1.1 _ (mem_part.mp hfound) rfl
  · simpa using htx
  · simpa using htq
  · simp only [both_append, both_alone]
    exact follows_append_iff.mpr ⟨_, hfx, hfq⟩

/-- **A service that is run in the midst of another**, without faults. -/
theorem exists_amid {f : α → Service β} {a : α} {r : Except Failure β}
    (hx : World.run x.run w₁ = (.ok a, w₂)) (hq : World.run q.run w₂ = (s, w₃))
    (hf : World.run (f a).run w₃ = (r, w₄)) :
    ∃ t : List (Caller × Exchange Backend),
      t = alone .first (exchanges x.run w₁) ++ (alone .second (exchanges q.run w₂) ++
        alone .first (exchanges (f a).run w₃)) ∧
      (x >>= f).run.Transcript (part .first t) r ∧
      q.run.Transcript (part .second t) s ∧ faultless.Follows w₁ (both t) w₄ := by
  obtain ⟨htx, hfx⟩ := transcript_and_follows_of_run hx
  obtain ⟨htq, hfq⟩ := transcript_and_follows_of_run hq
  obtain ⟨htf, hff⟩ := transcript_and_follows_of_run hf
  refine ⟨alone .first (exchanges x.run w₁) ++ (alone .second (exchanges q.run w₂) ++
    alone .first (exchanges (f a).run w₃)), rfl, ?_, ?_, ?_⟩
  · simp only [part_append, part_alone_self, part_first_alone_second, List.nil_append]
    exact transcript_run_bind_iff.mpr (.inl ⟨_, a, _, rfl, htx, htf⟩)
  · simpa using htq
  · simp only [both_append, both_alone]
    exact follows_append_iff.mpr ⟨_, hfx, follows_append_iff.mpr ⟨_, hfq, hff⟩⟩

end Alone

/-! ## One user who refreshes beside a rotation -/

/-- The store once the stamp of the user was rotated. -/
def renewed (stamp : SecurityStamp) (store : Store) : Store :=
  { store with users := store.users.modify alice.userId ({ · with stamp }) }

theorem updateStamp_signedIn (stamp : SecurityStamp) :
    signedIn.store.updateStamp alice.userId stamp = .ok (renewed stamp signedIn.store) := rfl

/-- The one user refreshes. -/
theorem run_refreshAccess_signedIn : ∃ issued cache,
    World.run (refreshAccess lone (oneUser.signer.sign refreshClaims)).run signedIn = (.ok issued,
      afterIssue lone alice.userId ⟨.repeating 5⟩ accessUntil { signedIn with cache }) := by
  obtain ⟨cache, hvalidate⟩ := run_validate_signedIn
  obtain ⟨issued, hissue, -⟩ := run_exchange (d := lone) (w := { signedIn with cache })
    key_refreshClaims (show signedIn.store.stampOf alice.userId = some alice.stamp from rfl)
    (show signedIn.now.add? _ = some accessUntil from rfl) rfl
  refine ⟨issued, cache, ?_⟩
  rw [refreshAccess_eq, run_bind_of_ok hvalidate, hissue]
  rfl

/-- A user refreshes, and then the stamp of the user is rotated: the new token is refused. -/
theorem refused_after_refresh_and_rotation :
    ∃ pair t issued fresh w',
      World.run (issuePair lone alice).run oneUser = (.ok pair, signedIn) ∧
      (refreshAccess lone pair.refresh.text).run.Transcript (part .first t) (.ok issued) ∧
      (rotateStamp alice.userId).run.Transcript (part .second t) (.ok fresh) ∧
      faultless.Follows signedIn (both t) w' ∧
      (∀ kind, Refuses lone kind alice.userId issued.text (validate lone issued.text kind) w') ∧
      Refuses lone .refresh alice.userId issued.text (refreshAccess lone issued.text) w' := by
  obtain ⟨pair, hpair, hrefresh, -⟩ := run_issuePair_oneUser
  obtain ⟨issued, cache, hissue⟩ := run_refreshAccess_signedIn
  rw [← hrefresh] at hissue
  generalize hw : afterIssue lone alice.userId ⟨.repeating 5⟩ accessUntil
    { signedIn with cache } = w at hissue
  obtain ⟨cache', hrotate⟩ := run_rotateStamp (w := w)
    (show w.store.updateStamp alice.userId _ = .ok (renewed ⟨w.supply w.drawn⟩ w.store) by
      rw [← hw]
      rfl)
  obtain ⟨t, hnot, hfirst, hsecond, hfollows⟩ :=
    exists_not_overtaken alice.userId hissue hrotate
  obtain ⟨htpair, hfpair⟩ := transcript_and_follows_of_run hpair
  have hbefore : History lone oneUser _ signedIn :=
    History.start.call (.issuePair alice) rfl htpair (follows_of_faultless hfpair)
  rw [List.nil_append] at hbefore
  have hfresh := fresh_of_drawn (follows_append_iff.mpr ⟨_, hfpair, hfollows⟩) (by
    rw [← hw]
    exact (by decide : 8 ≤ 16))
  obtain ⟨-, hsigned⟩ := signed_of_issuePair htpair
  obtain ⟨hrefused, -⟩ := refresh_escapes_iff_overtaken hbefore hsigned hfirst hsecond
    (follows_of_faultless hfollows) .start (by rwa [List.append_nil])
  exact ⟨pair, t, issued, _, _, hpair, hfirst, hsecond, hfollows, hrefused hnot⟩

/-- **A rotation that runs while a refresh is between validating its token and looking up the stamp
does not stop it**: all that was issued to the user is to be worthless, and yet the token that is
issued is accepted. -/
theorem refresh_escapes_rotation :
    ∃ pair t issued fresh minted w',
      World.run (issuePair lone alice).run oneUser = (.ok pair, signedIn) ∧
      (refreshAccess lone pair.refresh.text).run.Transcript (part .first t) (.ok issued) ∧
      (rotateStamp alice.userId).run.Transcript (part .second t) (.ok fresh) ∧
      faultless.Follows signedIn (both t) w' ∧
      Fresh oneUser (exchanges (issuePair lone alice).run oneUser ++ both t) ∧
      (World.run (validate lone issued.text .access).run w').1 = .ok ⟨alice.userId, minted⟩ := by
  obtain ⟨pair, hpair, hrefresh, -⟩ := run_issuePair_oneUser
  obtain ⟨cache, hvalidate⟩ := run_validate_signedIn
  obtain ⟨cache', hrotate⟩ := run_rotateStamp (w := { signedIn with cache })
    (updateStamp_signedIn ⟨.repeating 5⟩)
  generalize hw : ({ signedIn with
    store := ((renewed ⟨.repeating 5⟩ signedIn.store).deleteTokens alice.userId).2
    drawn := signedIn.drawn + 1
    cache := cache' } : World) = w at hrotate
  have hstored : w.store.stampOf alice.userId = some ⟨.repeating 5⟩ := by rw [← hw]; rfl
  have huser : w.store.users.contains alice.userId = true := by rw [← hw]; rfl
  have hexpires : w.now.add? lone.tokens.accessLifetime = some accessUntil := by rw [← hw]; rfl
  obtain ⟨issued, hissue, -, htext⟩ := run_exchange key_refreshClaims hstored hexpires huser
  obtain ⟨t, -, hfirst, hsecond, hfollows⟩ := exists_amid hvalidate hrotate hissue
  obtain ⟨-, hfpair⟩ := transcript_and_follows_of_run hpair
  refine ⟨pair, t, issued, _, claimsFor lone.tokens ⟨alice.userId, ⟨.repeating 5⟩⟩ .access
    (some ⟨.repeating 1⟩) ⟨w.supply w.drawn⟩ (w.supply (w.drawn + 1)) w.now accessUntil, _, hpair,
    ?_, hsecond, hfollows, ?_, ?_⟩
  · rw [hrefresh, refreshAccess_eq]
    exact hfirst
  · refine fresh_of_drawn (follows_append_iff.mpr ⟨signedIn, hfpair, hfollows⟩) ?_
    rw [← hw]
    exact (by decide : 8 ≤ 16)
  · rw [htext]
    refine (run_validate_iff (checkClaims_claimsFor ..) (userId_claimsFor ..) (stamp_claimsFor ..)
      (key_claimsFor ..) hstored).mpr ⟨?_, .inr (isTokenLive_afterIssue ?_)⟩
    · rw [← hw]
      rfl
    · have hlasts : signedIn.now < accessUntil := by decide
      rw [← hw]
      exact hlasts

end AccessControl.Concurrency
