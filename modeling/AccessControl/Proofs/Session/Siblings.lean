import AccessControl.Proofs.Session.Exchange
import AccessControl.Proofs.Session.SignOut

/-! # Exchanges of other tokens

After a revocation not only the validation of another token comes out as before, but also its
exchange for an access token.  For this the worlds must agree in more than validations ask for: in
the users, for one of whom the record is stored, and in the identifiers that are given next
(`World.TwinBut`).  A revocation leaves such worlds behind, and issuing a token keeps them such,
even if it is issued for one of the revoked keys.
-/
namespace AccessControl
open Outside Program

namespace World

/-- **Two worlds differ in what they know of some keys at the most, and give the same
identifiers.** -/
structure TwinBut (owners : UserId × TokenKey → Prop) (w w' : World) : Prop
    extends AlikeBut owners w w' where
  users : w'.store.users = w.store.users
  supply : w'.supply = w.supply
  drawn : w'.drawn = w.drawn

/-- A request leaves the users and the identifiers that are left to give alone. -/
def LeavesRest (r : Backend.Request) : Prop :=
  ∀ w : World, (World.answer r w).2.store.users = w.store.users ∧
    (World.answer r w).2.supply = w.supply ∧ (World.answer r w).2.drawn = w.drawn

/-- A request that issuing a token makes, or that validating another token does. -/
def Undisturbed (owners : UserId × TokenKey → Prop) : Backend.Request → Prop
  | .sign _ => True
  | .fresh => True
  | .createToken _ => True
  | .cacheSet _ _ _ => True
  | r => Unconcerned owners r

variable {owners : UserId × TokenKey → Prop} {u v w w' : World} {r : Backend.Request}
  {mayFail : Backend.Request → Bool}

theorem Unconcerned.leavesRest (h : Unconcerned owners r) : LeavesRest r := by
  intro w
  cases r <;> first | exact ⟨rfl, rfl, rfl⟩ | exact False.elim h

theorem Removes.leavesRest (h : Removes owners r) : LeavesRest r := by
  intro w
  cases r <;> first | exact ⟨rfl, rfl, rfl⟩ | exact False.elim h

theorem Unconcerned.undisturbed (h : Unconcerned owners r) : Undisturbed owners r := by
  cases r <;> first | exact h | trivial

namespace TwinBut

theorem refl (w : World) : TwinBut owners w w := ⟨.refl w, rfl, rfl, rfl⟩

theorem symm (h : TwinBut owners w w') : TwinBut owners w' w where
  toAlikeBut := h.toAlikeBut.symm
  users := h.users.symm
  supply := h.supply.symm
  drawn := h.drawn.symm

theorem trans (h : TwinBut owners u v) (h' : TwinBut owners v w) : TwinBut owners u w where
  toAlikeBut := h.toAlikeBut.trans h'.toAlikeBut
  users := h'.users.trans h.users
  supply := h'.supply.trans h.supply
  drawn := h'.drawn.trans h.drawn

/-- A removal of what is of some keys leaves such worlds behind, whether it is done or fails. -/
theorem of_removes (hr : Removes owners r) {a : Backend.Answer r}
    (ha : Answered mayFail r w a w') : TwinBut owners w w' := by
  have halike : AlikeBut owners w w' := .of_removes hr ha
  obtain ⟨husers, hsupply, hdrawn⟩ := hr.leavesRest w
  cases ha with
  | served => exact ⟨halike, husers, hsupply, hdrawn⟩
  | refused _ _ => exact refl w
  | unconfirmed _ _ => exact ⟨halike, husers, hsupply, hdrawn⟩

/-- What is not of the keys is answered alike. -/
theorem unconcerned (h : TwinBut owners w w') (hr : Unconcerned owners r) :
    (World.answer r w').1 = (World.answer r w).1 ∧
      TwinBut owners (World.answer r w).2 (World.answer r w').2 := by
  obtain ⟨hsame, halike⟩ := answersAlike_alikeBut w w' r h.toAlikeBut hr
  obtain ⟨husers, hsupply, hdrawn⟩ := hr.leavesRest w
  obtain ⟨husers', hsupply', hdrawn'⟩ := hr.leavesRest w'
  refine ⟨hsame, halike, ?_, ?_, ?_⟩
  · rw [husers', husers, h.users]
  · rw [hsupply', hsupply, h.supply]
  · rw [hdrawn', hdrawn, h.drawn]

/-- **A record is stored in both worlds or in none**, since their users are the same. -/
theorem createToken (h : TwinBut owners w w') (record : Token.Record) :
    (World.answer (.createToken record) w').1 = (World.answer (.createToken record) w).1 ∧
      TwinBut owners (World.answer (.createToken record) w).2
        (World.answer (.createToken record) w').2 := by
  by_cases hknown : w.store.users.contains record.userId = true
  · have hknown' : w'.store.users.contains record.userId = true := h.users ▸ hknown
    rw [Session.answer_createToken hknown, Session.answer_createToken hknown']
    refine ⟨rfl, ⟨h.signer, h.now, h.stamps, fun owner howner => ?_, h.seen⟩, h.users, h.supply,
      h.drawn⟩
    dsimp only
    rw [Table.find?_insert, Table.find?_insert, h.records owner howner]
  · have hrefused : ∀ v : World, ¬v.store.users.contains record.userId = true →
        World.answer (.createToken record) v = (.error record.userId.missing, v) := by
      intro v hv
      show World.write (·.createToken record) v = _
      rw [World.write, World.writeGiving, Store.createToken, if_neg hv]
      rfl
    rw [hrefused w hknown, hrefused w' (h.users ▸ hknown)]
    exact ⟨rfl, h⟩

end TwinBut

/-- **Such worlds answer alike what issuing and validating other tokens asks for**, and stay
such. -/
theorem answersAlike_twinBut : AnswersAlike (TwinBut owners) (Undisturbed owners) := by
  intro w w' r h hr
  by_cases hother : Unconcerned owners r
  · exact h.unconcerned hother
  cases r with
  | sign claims =>
    refine ⟨?_, h⟩
    show Except.ok (w'.signer.sign claims) = Except.ok (w.signer.sign claims)
    rw [h.signer]
  | fresh =>
    refine ⟨?_, ⟨h.signer, h.now, h.stamps, h.records, h.seen⟩, h.users, h.supply, ?_⟩
    · show w'.supply w'.drawn = w.supply w.drawn
      rw [h.supply, h.drawn]
    · exact congrArg (· + 1) h.drawn
  | createToken record => exact h.createToken record
  | cacheSet text value seconds =>
    -- What is cached of one of the keys is not compared.
    refine ⟨rfl, h.toAlikeBut.withCache fun other hbesides => ?_, h.users, h.supply, h.drawn⟩
    rw [h.now]
    exact MemoryCache.seen_set_congr (Instant.lt_irrefl _) (h.seen other hbesides) text value
      seconds
  | _ => exact absurd hr hother

end World

namespace Session
open World
variable {d : Deployment} {user : UserId} {key : TokenKey} {token : String} {claims : Token.Claims}
  {v w w' : World} {log t : Log}

/-- **A revocation leaves the users and the identifiers alone**, however it ends. -/
theorem twinBut_of_revoke {r : Except Failure Unit}
    (ht : (revoke user claims).run.Transcript log r) (hf : (steady mayFail).Follows w log w') :
    TwinBut (RevokedOf user claims) w w' := by
  refine hf.invariant (P := TwinBut (RevokedOf user claims) w) (fun e he m m' ha hm => ?_)
    (.refl w)
  exact hm.trans (.of_removes (asks_revoke_removes log r ht e he) ha)

/-- Once a refresh token was validated, its exchange is not concerned with any keys. -/
theorem asks_exchange_undisturbed {owners : UserId × TokenKey → Prop}
    (validated : Token.Validated) : (exchange d validated).run.Asks (Undisturbed owners) := by
  refine Asks.run_bind (asks_refusing _) fun refreshKey => ?_
  refine Asks.run_bind (asks_backend (.findStamp _) trivial) fun stamp? => ?_
  split
  · exact asks_run_throw _
  · rw [issue_eq]
    refine Asks.run_bind (asks_backend .fresh trivial).run_lift fun uuid => ?_
    exact asks_issueWith trivial trivial d _ .access _ (fun _ _ _ => trivial) (fun _ => trivial)
      fun _ => trivial

/-- The exchange of another token is not concerned with the revoked keys. -/
theorem undisturbed_of_refreshAccess {r : Except Failure Token.Issued}
    (ht : (refreshAccess d token).run.Transcript t r) (hf : (steady mayFail).Follows w t v)
    (hother : ∀ key, Revoked claims key → ¬Carries w.signer token user key) :
    ∀ e ∈ t, Undisturbed (RevokedOf user claims) e.request := by
  rw [refreshAccess_eq] at ht
  rcases transcript_run_bind_iff.mp ht with
    ⟨t₁, validated, t₂, rfl, hvalidate, hexchange⟩ | ⟨failure, -, hvalidate⟩
  · obtain ⟨m, hm, -⟩ := follows_append_iff.mp hf
    have hvalidating : ∀ e ∈ t₁, Undisturbed (RevokedOf user claims) e.request :=
      fun e he => (unconcerned_of_validate hvalidate hm hother e he).undisturbed
    exact List.forall_mem_append.mpr
      ⟨hvalidating, asks_exchange_undisturbed validated t₂ r hexchange⟩
  · exact fun e he => (unconcerned_of_validate hvalidate hf hother e he).undisturbed

/-- **A token with another key is exchanged after a revocation as before it.** -/
theorem sameOutcome_refreshAccess_of_revoke {r : Except Failure Unit}
    (ht : (revoke user claims).run.Transcript log r) (hf : (steady mayFail).Follows w log w')
    (hother : ∀ key, Revoked claims key → ¬Carries w.signer token user key) :
    SameOutcome (refreshAccess d token).run w w' := by
  have htwin := twinBut_of_revoke ht hf
  have hother' : ∀ key, Revoked claims key → ¬Carries w'.signer token user key := by
    rw [htwin.signer]
    exact hother
  exact sameOutcome_of_alike answersAlike_twinBut htwin htwin.symm
    (fun _ _ _ ht hv => undisturbed_of_refreshAccess ht hv hother)
    fun _ _ _ ht hv => undisturbed_of_refreshAccess ht hv hother'

end Session
end AccessControl
