import AccessControl.Proofs.Json.Spelling
import AccessControl.Proofs.Program.Service
import AccessControl.Session.Revoke
import AccessControl.Session.Validate

/-! # What the services of sessions ask for

Most requests of these services add nothing to the store or to the cache: `AllowsPlain P` says
that a kind of requests `P` has all of them.  The others are named where they are made: signing
claims, storing the record of a token, writing a stamp, and caching.  So one walk through each
service tells, for every kind, whether the service keeps to it.  What is stored and cached of a
token is of no consequence for stamps; `Allows P` says that `P` has these requests too.
-/
namespace AccessControl.Session
open Program

/-- A kind of requests has everything that the services ask for besides signing claims and
adding something to the store or to the cache. -/
structure AllowsPlain (P : Backend.Request → Prop) : Prop where
  get : ∀ key, P (.cacheGet key)
  delete : ∀ key, P (.cacheDelete key)
  fresh : P .fresh
  now : P .now
  verify : ∀ token, P (.verify token)
  isTokenLive : ∀ user key now, P (.isTokenLive user key now)
  deleteToken : ∀ user key, P (.deleteToken user key)
  deleteTokens : ∀ user, P (.deleteTokens user)
  findStamp : ∀ user, P (.findStamp user)

/-- A kind of requests has everything that the services ask for besides signing claims and
writing or caching stamps. -/
structure Allows (P : Backend.Request → Prop) : Prop extends AllowsPlain P where
  live : ∀ seconds (item : Cached.LiveToken),
    P (.cacheSet (CacheKey.tokenValidity item.userId item.key).text (Json.write item) seconds)
  createToken : ∀ record, P (.createToken record)

variable {P : Backend.Request → Prop}

/-! ## Issuing -/

/-- Issues a token with a key. -/
def issueWith (d : Deployment) (subject : Token.Subject) (kind : Token.Kind)
    (refreshKey : Option TokenKey) (key : TokenKey) : Service Token.Issued := do
  let lifetime := d.tokens.lifetime kind
  let issuedAt ← Backend.now
  match issuedAt.add? lifetime with
  | none => throw expiryOutOfRange
  | some expiresAt =>
    let tokenId ← Backend.fresh
    let text ← Backend.sign
      (claimsFor d.tokens subject kind refreshKey key tokenId issuedAt expiresAt)
    Backend.createToken ⟨subject.userId, key, expiresAt⟩
    Cached.store d.cacheSeconds (Cached.LiveToken.mk subject.userId key)
    return ⟨text, key, lifetime⟩

/-- **A token is issued with a fresh key.** -/
theorem issue_eq (d : Deployment) (subject : Token.Subject) (kind : Token.Kind)
    (refreshKey : Option TokenKey) :
    issue d subject kind refreshKey = (do
      let key := TokenKey.mk (← Backend.fresh)
      issueWith d subject kind refreshKey key) := rfl

/-- Only claims with the number and the stamp of the subject are signed for it, and all that is
stored or cached is of the key. -/
theorem asks_issueWith (hnow : P .now) (hfresh : P .fresh) (d : Deployment)
    (subject : Token.Subject) (kind : Token.Kind) (refreshKey : Option TokenKey) {key : TokenKey}
    (hsign : ∀ claims : Token.Claims, claims.subject = subject.userId.text →
      claims.stamp? = some subject.stamp.text → P (.sign claims))
    (hcreate : ∀ expiresAt, P (.createToken ⟨subject.userId, key, expiresAt⟩))
    (hlive : ∀ seconds, P (.cacheSet (CacheKey.tokenValidity subject.userId key).text
      (Json.write (Cached.LiveToken.mk subject.userId key)) seconds)) :
    (issueWith d subject kind refreshKey key).run.Asks P := by
  refine Asks.run_bind (asks_backend .now hnow).run_lift fun issuedAt => ?_
  split
  · exact asks_run_throw _
  · refine Asks.run_bind (asks_backend .fresh hfresh).run_lift fun tokenId => ?_
    refine Asks.run_bind (asks_backend (.sign _) (hsign _ rfl rfl)) fun text => ?_
    refine Asks.run_bind (asks_backend (.createToken _) (hcreate _)) fun _ => ?_
    refine Asks.run_bind (asks_store (hlive d.cacheSeconds)).run_lift fun _ => ?_
    exact asks_run_pure _

theorem asks_issue (hP : Allows P) (d : Deployment) (subject : Token.Subject) (kind : Token.Kind)
    (refreshKey : Option TokenKey)
    (hsign : ∀ claims : Token.Claims, claims.subject = subject.userId.text →
      claims.stamp? = some subject.stamp.text → P (.sign claims)) :
    (issue d subject kind refreshKey).run.Asks P := by
  rw [issue_eq]
  refine Asks.run_bind (asks_backend .fresh hP.fresh).run_lift fun key => ?_
  exact asks_issueWith hP.now hP.fresh d subject kind refreshKey hsign
    (fun _ => hP.createToken _) fun seconds => hP.live seconds ⟨subject.userId, ⟨key⟩⟩

theorem asks_issuePair (hP : Allows P) (d : Deployment) (subject : Token.Subject)
    (hsign : ∀ claims : Token.Claims, claims.subject = subject.userId.text →
      claims.stamp? = some subject.stamp.text → P (.sign claims)) :
    (issuePair d subject).run.Asks P :=
  Asks.run_bind (asks_issue hP d subject .refresh none hsign) fun _ =>
    Asks.run_bind (asks_issue hP d subject .access _ hsign) fun _ => asks_run_pure _

/-! ## Validating -/

theorem asks_refusing {α : Type} (check : Except Rejection α) : (refusing check).run.Asks P := by
  cases check with
  | ok a => exact asks_run_pure a
  | error rejection => exact asks_run_throw _

theorem asks_verify {token : String} (h : P (.verify token)) :
    (Backend.verify token).run.Asks P := by
  refine (asks_backend (.verify token) h).bind fun verdict => ?_
  split <;> exact asks_done _

/-- A kind of requests has all that the check of a stamp of a user makes. -/
structure AllowsStamp (P : Backend.Request → Prop) (owner : UserId) : Prop where
  get : P (.cacheGet (CacheKey.securityStamp owner).text)
  delete : P (.cacheDelete (CacheKey.securityStamp owner).text)
  find : P (.findStamp owner)
  set : ∀ stamp seconds, P (.cacheSet (CacheKey.securityStamp owner).text
    (Json.write (Cached.Stamp.mk owner stamp)) seconds)

theorem asks_checkStamp {owner : UserId} (h : AllowsStamp P owner) (d : Deployment)
    (claims : Token.Claims) : (checkStamp d owner claims).run.Asks P := by
  refine Asks.run_bind (asks_refusing _) fun claimed => ?_
  refine Asks.run_bind (asks_read h.get h.delete).run_lift fun cached? => ?_
  split
  · exact asks_run_pure _
  · refine Asks.run_bind (asks_backend (.findStamp owner) h.find) fun current? => ?_
    split
    · exact (asks_store (h.set claimed d.cacheSeconds)).run_lift
    · exact asks_run_throw _

/-- A kind of requests has all that the check of a key of a user makes. -/
structure AllowsKey (P : Backend.Request → Prop) (owner : UserId) (key : TokenKey) : Prop where
  get : P (.cacheGet (CacheKey.tokenValidity owner key).text)
  delete : P (.cacheDelete (CacheKey.tokenValidity owner key).text)
  now : P .now
  find : ∀ now, P (.isTokenLive owner key now)
  set : ∀ seconds, P (.cacheSet (CacheKey.tokenValidity owner key).text
    (Json.write (Cached.LiveToken.mk owner key)) seconds)

/-- Only what concerns the key of the token is asked for. -/
theorem asks_checkKey {owner : UserId} {claims : Token.Claims}
    (h : ∀ key, claims.key = .ok key → AllowsKey P owner key) (d : Deployment) :
    (checkKey d owner claims).run.Asks P := by
  rw [checkKey]
  cases hkey : claims.key with
  | error rejection => exact asks_run_throw _
  | ok key =>
    have hP := h key hkey
    rw [refusing, pure_bind]
    refine Asks.run_bind ((asks_read hP.get hP.delete).bind fun _ => asks_done _).run_lift
      fun cached => ?_
    split
    · exact asks_run_pure _
    · refine Asks.run_bind (asks_backend .now hP.now).run_lift fun now => ?_
      refine Asks.run_bind (asks_backend (.isTokenLive _ _ _) (hP.find now)) fun live => ?_
      split
      · exact (asks_store (hP.set d.cacheSeconds)).run_lift
      · exact asks_run_throw _

theorem AllowsPlain.stamp (hP : AllowsPlain P) {owner : UserId} (hset : ∀ stamp seconds,
    P (.cacheSet (CacheKey.securityStamp owner).text (Json.write (Cached.Stamp.mk owner stamp))
      seconds)) : AllowsStamp P owner :=
  ⟨hP.get _, hP.delete _, hP.findStamp owner, hset⟩

theorem AllowsPlain.key (hP : AllowsPlain P) {owner : UserId} {key : TokenKey} (hset : ∀ seconds,
    P (.cacheSet (CacheKey.tokenValidity owner key).text
      (Json.write (Cached.LiveToken.mk owner key)) seconds)) : AllowsKey P owner key :=
  ⟨hP.get _, hP.delete _, hP.now, hP.isTokenLive owner key, hset⟩

theorem Allows.key (hP : Allows P) (owner : UserId) (key : TokenKey) : AllowsKey P owner key :=
  hP.toAllowsPlain.key fun seconds => hP.live seconds ⟨owner, key⟩

theorem asks_validate {token : String} (hverify : P (.verify token))
    (hstamp : ∀ owner, AllowsStamp P owner) (hkey : ∀ owner key, AllowsKey P owner key)
    (d : Deployment) (kind : Token.Kind) : (validate d token kind).run.Asks P := by
  refine Asks.run_bind (asks_verify hverify) fun claims => ?_
  refine Asks.run_bind (asks_refusing _) fun _ => ?_
  refine Asks.run_bind (asks_refusing _) fun owner => ?_
  refine Asks.run_bind (asks_checkStamp (hstamp owner) d claims) fun _ => ?_
  exact Asks.run_bind (asks_checkKey (fun key _ => hkey owner key) d) fun _ => asks_run_pure _

theorem asks_refreshAccess (hP : Allows P) (hstamp : ∀ owner, AllowsStamp P owner)
    (d : Deployment) (token : String) (hsign : ∀ claims, P (.sign claims)) :
    (refreshAccess d token).run.Asks P := by
  refine Asks.run_bind (asks_validate (hP.verify token) hstamp hP.key d .refresh)
    fun validated => ?_
  refine Asks.run_bind (asks_refusing _) fun refreshKey => ?_
  refine Asks.run_bind (asks_backend (.findStamp _) (hP.findStamp _)) fun stamp? => ?_
  split
  · exact asks_run_throw _
  · exact asks_issue hP d _ .access _ fun claims _ _ => hsign claims

/-! ## Revoking and rotating -/

theorem asks_revokeKey {owner : UserId} {key : TokenKey} (hrecord : P (.deleteToken owner key))
    (hcached : P (.cacheDelete (CacheKey.tokenValidity owner key).text)) :
    (revokeKey owner key).run.Asks P := by
  have hdelete := asks_backend (.deleteToken owner key) hrecord
  refine Asks.run_bind hdelete.run_outcome fun deleted => ?_
  refine Asks.run_bind (asks_remove hcached).run_lift fun _ => ?_
  exact Asks.run_bind (asks_run_conclude _) fun _ => asks_run_pure _

theorem asks_revokeKeys {owner : UserId} {keys : List TokenKey}
    (h : ∀ key ∈ keys, P (.deleteToken owner key) ∧
      P (.cacheDelete (CacheKey.tokenValidity owner key).text)) :
    (revokeKeys owner keys).run.Asks P := by
  induction keys with
  | nil => exact asks_run_pure _
  | cons key keys ih =>
    obtain ⟨⟨hrecord, hcached⟩, hrest⟩ := List.forall_mem_cons.mp h
    refine Asks.run_bind (asks_revokeKey hrecord hcached).run_outcome fun first => ?_
    refine Asks.run_bind (ih hrest).run_outcome fun others => ?_
    exact Asks.run_bind (asks_run_conclude _) fun _ => asks_run_conclude _

theorem asks_revocation {owner : UserId} (h : ∀ key, P (.deleteToken owner key) ∧
    P (.cacheDelete (CacheKey.tokenValidity owner key).text)) (claims : Token.Claims) :
    (revoke owner claims).run.Asks P := by
  unfold revoke
  split
  · exact asks_run_throw _
  · exact asks_revokeKeys fun key _ => h key

theorem asks_revoke (hP : AllowsPlain P) (owner : UserId) (claims : Token.Claims) :
    (revoke owner claims).run.Asks P :=
  asks_revocation (fun key => ⟨hP.deleteToken owner key, hP.delete _⟩) claims

/-- Writes a stamp over that of a user, and removes what is cached of the stamp before and
after. -/
def writeStamp (owner : UserId) (fresh : SecurityStamp) : Service Unit := do
  Cached.remove (.securityStamp owner)
  let updated ← Backend.outcome (Backend.updateStamp owner fresh)
  Cached.remove (.securityStamp owner)
  Backend.conclude updated

/-- Removes the token records of a user, and once more what is cached of the stamp. -/
def forgetTokens (owner : UserId) : Service Unit := do
  let deleted ← Backend.outcome (Backend.deleteTokens owner)
  Cached.remove (.securityStamp owner)
  let _ ← Backend.conclude deleted

/-- **A rotation writes a fresh stamp and then removes the token records.** -/
theorem rotateStamp_eq (owner : UserId) :
    rotateStamp owner = (do
      let fresh := SecurityStamp.mk (← Backend.fresh)
      writeStamp owner fresh
      forgetTokens owner
      return fresh) := by
  simp only [rotateStamp, writeStamp, forgetTokens, LawfulMonad.bind_assoc]
  simp

section
variable {owner : UserId} (hdelete : P (.cacheDelete (CacheKey.securityStamp owner).text))
include hdelete

theorem asks_writeStamp {fresh : SecurityStamp} (hupdate : P (.updateStamp owner fresh)) :
    (writeStamp owner fresh).run.Asks P := by
  refine Asks.run_bind (asks_remove hdelete).run_lift fun _ => ?_
  refine Asks.run_bind (asks_backend (.updateStamp owner fresh) hupdate).run_outcome
    fun updated => ?_
  exact Asks.run_bind (asks_remove hdelete).run_lift fun _ => asks_run_conclude _

theorem asks_forgetTokens (hforget : P (.deleteTokens owner)) :
    (forgetTokens owner).run.Asks P := by
  refine Asks.run_bind (asks_backend (.deleteTokens owner) hforget).run_outcome fun deleted => ?_
  refine Asks.run_bind (asks_remove hdelete).run_lift fun _ => ?_
  exact Asks.run_bind (asks_run_conclude _) fun _ => asks_run_pure _

theorem asks_rotation (hfresh : P .fresh) (hupdate : ∀ stamp, P (.updateStamp owner stamp))
    (hforget : P (.deleteTokens owner)) : (rotateStamp owner).run.Asks P := by
  rw [rotateStamp_eq]
  refine Asks.run_bind (asks_backend .fresh hfresh).run_lift fun uuid => ?_
  refine Asks.run_bind (asks_writeStamp hdelete (hupdate _)) fun _ => ?_
  exact Asks.run_bind (asks_forgetTokens hdelete hforget) fun _ => asks_run_pure _

end

theorem asks_rotateStamp (hP : AllowsPlain P) (owner : UserId)
    (hupdate : ∀ stamp, P (.updateStamp owner stamp)) : (rotateStamp owner).run.Asks P :=
  asks_rotation (hP.delete _) hP.fresh hupdate (hP.deleteTokens owner)

/-! ## One user -/

/-- A kind of requests has all that the services ask for about one user. -/
structure AllowsOf (P : Backend.Request → Prop) (owner : UserId) : Prop where
  fresh : P .fresh
  now : P .now
  sign : ∀ claims, P (.sign claims)
  createToken : ∀ key expiresAt, P (.createToken ⟨owner, key, expiresAt⟩)
  deleteToken : ∀ key, P (.deleteToken owner key)
  deleteTokens : P (.deleteTokens owner)
  updateStamp : ∀ stamp, P (.updateStamp owner stamp)
  stamp : AllowsStamp P owner
  key : ∀ key, AllowsKey P owner key

namespace AllowsOf
variable {owner : UserId}

theorem asks_issue {subject : Token.Subject} (h : AllowsOf P subject.userId) (d : Deployment)
    (kind : Token.Kind) (refreshKey : Option TokenKey) :
    (issue d subject kind refreshKey).run.Asks P := by
  rw [issue_eq]
  refine Asks.run_bind (asks_backend .fresh h.fresh).run_lift fun key => ?_
  exact asks_issueWith h.now h.fresh d subject kind refreshKey (fun claims _ _ => h.sign claims)
    (h.createToken _) (h.key _).set

theorem asks_issuePair {subject : Token.Subject} (h : AllowsOf P subject.userId)
    (d : Deployment) : (issuePair d subject).run.Asks P :=
  Asks.run_bind (h.asks_issue d .refresh none) fun _ =>
    Asks.run_bind (h.asks_issue d .access _) fun _ => asks_run_pure _

theorem asks_revoke (h : AllowsOf P owner) (claims : Token.Claims) :
    (revoke owner claims).run.Asks P :=
  asks_revocation (fun key => ⟨h.deleteToken key, (h.key key).delete⟩) claims

theorem asks_rotateStamp (h : AllowsOf P owner) : (rotateStamp owner).run.Asks P :=
  asks_rotation h.stamp.delete h.fresh h.updateStamp h.deleteTokens

end AllowsOf

/-! ## Stamps -/

/-- A request writes no stamp of a user. -/
def KeepsStamp (user : UserId) (r : Backend.Request) : Prop := ∀ stamp, r ≠ .updateStamp user stamp

theorem allows_keepsStamp {user : UserId} : Allows (KeepsStamp user) where
  get _ _ := nofun
  delete _ _ := nofun
  live _ _ _ := nofun
  fresh _ := nofun
  now _ := nofun
  verify _ _ := nofun
  createToken _ _ := nofun
  isTokenLive _ _ _ _ := nofun
  deleteToken _ _ _ := nofun
  deleteTokens _ _ := nofun
  findStamp _ _ := nofun

theorem allowsStamp_keepsStamp {user owner : UserId} : AllowsStamp (KeepsStamp user) owner :=
  allows_keepsStamp.toAllowsPlain.stamp fun _ _ _ => nofun

end AccessControl.Session
