import SentryUsb.Library.Framing

/-! # Associated data of the encryption

Every ciphertext is bound to the slot it belongs to by associated data: the text of the slot, the user and the fields
that name the entry (`aad.rs`). A field that stands before another one carries its length.

* **`lp`** — a field with its length in front, which must fit 16 bits;
* **`Call.aad`** — a call of one of the builders;
* **`aad_injective`** — for one user, equal bytes are the same call, and for any two users they are of the same slot. -/

namespace SentryUsb.Crypto

open Library

abbrev Bytes := List UInt8

/-- `as_bytes`. -/
def asBytes (s : String) : Bytes := s.toUTF8.data.toList

/-- A field with its length in front; the length is asserted to fit. -/
def lp (bytes : Bytes) : Option Bytes := if bytes.length ≤ 65535 then some (lengthPrefixed bytes) else none

/-! ## Slots -/

/-- What a ciphertext is for. -/
inductive Slot where
  | wrapPwd
  | wrapRec
  | wrapPasskey
  | route
  | routekey
  | pair
  | piLocal
  | piLocalX25519
  | rekey
  | routeTags
  | routeSummary
  | charge
  | chargekey
  | chargeSummary
  | chargeMutable
  | rateConfig
  deriving DecidableEq, Repr

def Slot.all : List Slot :=
  [.wrapPwd, .wrapRec, .wrapPasskey, .route, .routekey, .pair, .piLocal, .piLocalX25519, .rekey, .routeTags,
    .routeSummary, .charge, .chargekey, .chargeSummary, .chargeMutable, .rateConfig]

theorem Slot.mem_all (s : Slot) : s ∈ Slot.all := by cases s <;> decide

/-- The text in front. -/
def Slot.text : Slot → String
  | .wrapPwd => "sentrycloud-wrap-pwd-v1"
  | .wrapRec => "sentrycloud-wrap-rec-v1"
  | .wrapPasskey => "sentrycloud-wrap-passkey-v2"
  | .route => "sentrycloud-route-v2"
  | .routekey => "sentrycloud-routekey-v2"
  | .pair => "sentrycloud-pair-v1"
  | .piLocal => "sentrycloud-pi-local-v1"
  | .piLocalX25519 => "sentrycloud-pi-local-x25519-v1"
  | .rekey => "sentrycloud-rekey-v2"
  | .routeTags => "sentrycloud-route-tags-v1"
  | .routeSummary => "sentrycloud-route-summary-v1"
  | .charge => "sentrycloud-charge-v1"
  | .chargekey => "sentrycloud-chargekey-v1"
  | .chargeSummary => "sentrycloud-charge-summary-v1"
  | .chargeMutable => "sentrycloud-charge-mutable-v1"
  | .rateConfig => "sentrycloud-rate-config-v1"

def Slot.domain (s : Slot) : Bytes := asBytes s.text

/-- **No text of a slot begins another.** -/
theorem prefixFree_domain : PrefixFree Slot.domain := by
  have hall : ∀ s ∈ Slot.all, ∀ t ∈ Slot.all, s.domain <+: t.domain → s = t := by decide +kernel
  exact fun s t => hall s s.mem_all t t.mem_all

/-! ## The builders -/

def wrappedDekPassword (userId : String) : Bytes := Slot.wrapPwd.domain ++ asBytes userId

def wrappedDekRecovery (userId : String) : Bytes := Slot.wrapRec.domain ++ asBytes userId

def wrappedDekPasskey (userId : String) (credentialId : Bytes) : Option Bytes :=
  (lp credentialId).map fun cred => Slot.wrapPasskey.domain ++ asBytes userId ++ cred

/-- The associated data of one route or charge of one device. -/
def itemAad (slot : Slot) (userId piId itemId : String) : Option Bytes :=
  (lp (asBytes piId)).bind fun pi => (lp (asBytes itemId)).map fun item =>
    slot.domain ++ asBytes userId ++ pi ++ item

def routeBlob (userId uploadedFromPi routeId : String) : Option Bytes := itemAad .route userId uploadedFromPi routeId

def routeKey (userId uploadedFromPi routeId : String) : Option Bytes := itemAad .routekey userId uploadedFromPi routeId

def pair (userId piId : String) : Bytes := Slot.pair.domain ++ asBytes userId ++ asBytes piId

def piLocal (piId : String) : Bytes := Slot.piLocal.domain ++ asBytes piId

def piLocalX25519 (piId : String) : Bytes := Slot.piLocalX25519.domain ++ asBytes piId

/-- `to_be_bytes` of a generation. -/
def generationBytes (g : UInt32) : Bytes := bigEndian16 (g.toNat / 65536) ++ bigEndian16 g.toNat

def rekey (userId piId : String) (newGeneration : UInt32) : Option Bytes :=
  (lp (asBytes piId)).map fun pi => Slot.rekey.domain ++ asBytes userId ++ pi ++ generationBytes newGeneration

def routeTags (userId uploadedFromPi routeId : String) : Option Bytes := itemAad .routeTags userId uploadedFromPi routeId

def routeSummary (userId uploadedFromPi routeId : String) : Option Bytes :=
  itemAad .routeSummary userId uploadedFromPi routeId

def chargeBlob (userId uploadedFromPi chargeId : String) : Option Bytes := itemAad .charge userId uploadedFromPi chargeId

def chargeKey (userId uploadedFromPi chargeId : String) : Option Bytes :=
  itemAad .chargekey userId uploadedFromPi chargeId

def chargeSummary (userId uploadedFromPi chargeId : String) : Option Bytes :=
  itemAad .chargeSummary userId uploadedFromPi chargeId

def chargeMutable (userId uploadedFromPi chargeId : String) : Option Bytes :=
  itemAad .chargeMutable userId uploadedFromPi chargeId

def rateConfig (userId piId : String) : Option Bytes :=
  (lp (asBytes piId)).map fun pi => Slot.rateConfig.domain ++ asBytes userId ++ pi

/-! ## Calls -/

/-- A call of a builder, apart from the user. -/
inductive Call where
  | wrappedDekPassword
  | wrappedDekRecovery
  | wrappedDekPasskey (credentialId : Bytes)
  | routeBlob (piId routeId : String)
  | routeKey (piId routeId : String)
  | pair (piId : String)
  | piLocal (piId : String)
  | piLocalX25519 (piId : String)
  | rekey (piId : String) (newGeneration : UInt32)
  | routeTags (piId routeId : String)
  | routeSummary (piId routeId : String)
  | chargeBlob (piId chargeId : String)
  | chargeKey (piId chargeId : String)
  | chargeSummary (piId chargeId : String)
  | chargeMutable (piId chargeId : String)
  | rateConfig (piId : String)
  deriving DecidableEq

/-- The bytes of a call, if its lengths fit. -/
def Call.aad (userId : String) : Call → Option Bytes
  | .wrappedDekPassword => some (Crypto.wrappedDekPassword userId)
  | .wrappedDekRecovery => some (Crypto.wrappedDekRecovery userId)
  | .wrappedDekPasskey cred => Crypto.wrappedDekPasskey userId cred
  | .routeBlob pi route => Crypto.routeBlob userId pi route
  | .routeKey pi route => Crypto.routeKey userId pi route
  | .pair pi => some (Crypto.pair userId pi)
  | .piLocal pi => some (Crypto.piLocal pi)
  | .piLocalX25519 pi => some (Crypto.piLocalX25519 pi)
  | .rekey pi g => Crypto.rekey userId pi g
  | .routeTags pi route => Crypto.routeTags userId pi route
  | .routeSummary pi route => Crypto.routeSummary userId pi route
  | .chargeBlob pi charge => Crypto.chargeBlob userId pi charge
  | .chargeKey pi charge => Crypto.chargeKey userId pi charge
  | .chargeSummary pi charge => Crypto.chargeSummary userId pi charge
  | .chargeMutable pi charge => Crypto.chargeMutable userId pi charge
  | .rateConfig pi => Crypto.rateConfig userId pi

/-- The slot of a call. -/
def Call.slot : Call → Slot
  | .wrappedDekPassword => .wrapPwd
  | .wrappedDekRecovery => .wrapRec
  | .wrappedDekPasskey _ => .wrapPasskey
  | .routeBlob _ _ => .route
  | .routeKey _ _ => .routekey
  | .pair _ => .pair
  | .piLocal _ => .piLocal
  | .piLocalX25519 _ => .piLocalX25519
  | .rekey _ _ => .rekey
  | .routeTags _ _ => .routeTags
  | .routeSummary _ _ => .routeSummary
  | .chargeBlob _ _ => .charge
  | .chargeKey _ _ => .chargekey
  | .chargeSummary _ _ => .chargeSummary
  | .chargeMutable _ _ => .chargeMutable
  | .rateConfig _ => .rateConfig

/-! ## Telling calls apart -/

theorem asBytes_injective : Function.Injective asBytes := fun _ _ h =>
  String.toByteArray_inj.mp (ByteArray.ext (Array.toList_inj.mp h))

theorem lp_eq_some {bytes b : Bytes} (h : lp bytes = some b) : bytes.length < 2 ^ 16 ∧ b = lengthPrefixed bytes := by
  obtain ⟨hlen, h⟩ := Option.ite_none_right_eq_some.mp h
  exact ⟨by omega, (Option.some.inj h).symm⟩

/-- A field with its length in front is told from what follows. -/
theorem lp_append_inj {x y a b s t : Bytes} (ha : lp x = some a) (hb : lp y = some b) (h : a ++ s = b ++ t) :
    x = y ∧ s = t := by
  obtain ⟨hx, rfl⟩ := lp_eq_some ha
  obtain ⟨hy, rfl⟩ := lp_eq_some hb
  exact lengthPrefixed_append_inj hx hy h

theorem lp_inj {x y a : Bytes} (hx : lp x = some a) (hy : lp y = some a) : x = y :=
  (lp_append_inj (s := []) (t := []) hx hy rfl).1

theorem generationBytes_injective : Function.Injective generationBytes := by
  intro g g' h
  have hg := g.toNat_lt
  have hg' := g'.toNat_lt
  obtain ⟨hhigh, hlow⟩ := List.append_inj h rfl
  have hhigh := bigEndian16_inj (show g.toNat / 65536 < 2 ^ 16 by omega) (show g'.toNat / 65536 < 2 ^ 16 by omega) hhigh
  -- the low half keeps the number modulo 2^16
  have hmod : ∀ n : Nat, bigEndian16 n = bigEndian16 (n % 2 ^ 16) := fun n => by
    rw [bigEndian16, bigEndian16]
    congr 1
    · apply UInt8.toNat_inj.mp
      rw [UInt8.toNat_ofNat', UInt8.toNat_ofNat']
      omega
    · congr 1
      apply UInt8.toNat_inj.mp
      rw [UInt8.toNat_ofNat', UInt8.toNat_ofNat']
      omega
  rw [hmod g.toNat, hmod g'.toNat] at hlow
  have hlow := bigEndian16_inj (Nat.mod_lt _ (by omega)) (Nat.mod_lt _ (by omega)) hlow
  apply UInt32.toNat_inj.mp
  omega

theorem itemAad_inj {slot : Slot} {user pi item pi' item' : String} {b : Bytes} (h : itemAad slot user pi item = some b)
    (h' : itemAad slot user pi' item' = some b) : pi = pi' ∧ item = item' := by
  obtain ⟨p, hp, h⟩ := Option.bind_eq_some_iff.mp h
  obtain ⟨i, hi, rfl⟩ := Option.map_eq_some_iff.mp h
  obtain ⟨p', hp', h'⟩ := Option.bind_eq_some_iff.mp h'
  obtain ⟨i', hi', heq⟩ := Option.map_eq_some_iff.mp h'
  rw [List.append_assoc, List.append_assoc _ p] at heq
  obtain ⟨hpi, hitem⟩ := lp_append_inj hp' hp (List.append_cancel_left heq)
  rw [hitem] at hi'
  exact ⟨(asBytes_injective hpi).symm, asBytes_injective (lp_inj hi hi')⟩

theorem itemAad_starts {slot : Slot} {user pi item : String} {b : Bytes} (h : itemAad slot user pi item = some b) :
    slot.domain <+: b := by
  obtain ⟨p, -, h⟩ := Option.bind_eq_some_iff.mp h
  obtain ⟨i, -, rfl⟩ := Option.map_eq_some_iff.mp h
  rw [List.append_assoc, List.append_assoc]
  exact List.prefix_append _ _

/-- **The bytes of a call start with the text of its slot.** -/
theorem Call.starts {c : Call} {user : String} {b : Bytes} (h : c.aad user = some b) : c.slot.domain <+: b := by
  have hfield : ∀ {slot : Slot} {o : Option Bytes} {f : Bytes → Bytes},
      o.map (fun x => slot.domain ++ asBytes user ++ f x) = some b → slot.domain <+: b := by
    intro slot o f ho
    obtain ⟨x, -, rfl⟩ := Option.map_eq_some_iff.mp ho
    rw [List.append_assoc]
    exact List.prefix_append _ _
  have hplain : ∀ {slot : Slot} {rest : Bytes}, some (slot.domain ++ rest) = some b → slot.domain <+: b := by
    intro slot rest hrest
    rw [← Option.some.inj hrest]
    exact List.prefix_append _ _
  cases c with
  | wrappedDekPassword => exact hplain h
  | wrappedDekRecovery => exact hplain h
  | wrappedDekPasskey cred => exact hfield (f := id) h
  | routeBlob pi route => exact itemAad_starts h
  | routeKey pi route => exact itemAad_starts h
  | pair pi => exact hplain (by rw [← h, Call.aad, Crypto.pair, List.append_assoc]; rfl)
  | piLocal pi => exact hplain h
  | piLocalX25519 pi => exact hplain h
  | rekey pi g =>
    exact hfield (o := lp (asBytes pi)) (f := fun x => x ++ generationBytes g)
      (by rw [← h, Call.aad, Crypto.rekey]; simp [Call.slot])
  | routeTags pi route => exact itemAad_starts h
  | routeSummary pi route => exact itemAad_starts h
  | chargeBlob pi charge => exact itemAad_starts h
  | chargeKey pi charge => exact itemAad_starts h
  | chargeSummary pi charge => exact itemAad_starts h
  | chargeMutable pi charge => exact itemAad_starts h
  | rateConfig pi => exact hfield (f := id) h

/-- **Equal bytes are of one slot**, whoever the users are. -/
theorem Call.slot_eq {c d : Call} {user other : String} {b : Bytes} (hc : c.aad user = some b) (hd : d.aad other = some b) :
    c.slot = d.slot := by
  obtain ⟨s, hs⟩ := starts hc
  obtain ⟨t, ht⟩ := starts hd
  exact prefixFree_domain.eq_of_append (hs.trans ht.symm)

/-- For one user, a call of the same slot has the same fields. -/
theorem Call.eq_of_slot {c d : Call} {user : String} {b : Bytes} (hslot : c.slot = d.slot) (hc : c.aad user = some b)
    (hd : d.aad user = some b) : c = d := by
  cases c with
  | wrappedDekPassword => cases d with | wrappedDekPassword => rfl | _ => exact nomatch hslot
  | wrappedDekRecovery => cases d with | wrappedDekRecovery => rfl | _ => exact nomatch hslot
  | wrappedDekPasskey cred =>
    cases d with
    | wrappedDekPasskey cred' =>
      obtain ⟨x, hx, rfl⟩ := Option.map_eq_some_iff.mp hc
      obtain ⟨y, hy, heq⟩ := Option.map_eq_some_iff.mp hd
      rw [List.append_cancel_left heq] at hy
      rw [lp_inj hx hy]
    | _ => exact nomatch hslot
  | pair pi =>
    cases d with
    | pair pi' => rw [asBytes_injective (List.append_cancel_left (Option.some.inj (hc.trans hd.symm)))]
    | _ => exact nomatch hslot
  | piLocal pi =>
    cases d with
    | piLocal pi' => rw [asBytes_injective (List.append_cancel_left (Option.some.inj (hc.trans hd.symm)))]
    | _ => exact nomatch hslot
  | piLocalX25519 pi =>
    cases d with
    | piLocalX25519 pi' => rw [asBytes_injective (List.append_cancel_left (Option.some.inj (hc.trans hd.symm)))]
    | _ => exact nomatch hslot
  | rekey pi g =>
    cases d with
    | rekey pi' g' =>
      obtain ⟨x, hx, rfl⟩ := Option.map_eq_some_iff.mp hc
      obtain ⟨y, hy, heq⟩ := Option.map_eq_some_iff.mp hd
      rw [List.append_assoc, List.append_assoc _ x] at heq
      obtain ⟨hpi, hgen⟩ := lp_append_inj hy hx (List.append_cancel_left heq)
      rw [asBytes_injective hpi, generationBytes_injective hgen]
    | _ => exact nomatch hslot
  | rateConfig pi =>
    cases d with
    | rateConfig pi' =>
      obtain ⟨x, hx, rfl⟩ := Option.map_eq_some_iff.mp hc
      obtain ⟨y, hy, heq⟩ := Option.map_eq_some_iff.mp hd
      rw [List.append_cancel_left heq] at hy
      rw [asBytes_injective (lp_inj hx hy)]
    | _ => exact nomatch hslot
  -- the slots that belong to one route or charge
  | routeBlob pi route =>
    cases d with
    | routeBlob pi' route' => obtain ⟨rfl, rfl⟩ := itemAad_inj hc hd; rfl
    | _ => exact nomatch hslot
  | routeKey pi route =>
    cases d with
    | routeKey pi' route' => obtain ⟨rfl, rfl⟩ := itemAad_inj hc hd; rfl
    | _ => exact nomatch hslot
  | routeTags pi route =>
    cases d with
    | routeTags pi' route' => obtain ⟨rfl, rfl⟩ := itemAad_inj hc hd; rfl
    | _ => exact nomatch hslot
  | routeSummary pi route =>
    cases d with
    | routeSummary pi' route' => obtain ⟨rfl, rfl⟩ := itemAad_inj hc hd; rfl
    | _ => exact nomatch hslot
  | chargeBlob pi charge =>
    cases d with
    | chargeBlob pi' charge' => obtain ⟨rfl, rfl⟩ := itemAad_inj hc hd; rfl
    | _ => exact nomatch hslot
  | chargeKey pi charge =>
    cases d with
    | chargeKey pi' charge' => obtain ⟨rfl, rfl⟩ := itemAad_inj hc hd; rfl
    | _ => exact nomatch hslot
  | chargeSummary pi charge =>
    cases d with
    | chargeSummary pi' charge' => obtain ⟨rfl, rfl⟩ := itemAad_inj hc hd; rfl
    | _ => exact nomatch hslot
  | chargeMutable pi charge =>
    cases d with
    | chargeMutable pi' charge' => obtain ⟨rfl, rfl⟩ := itemAad_inj hc hd; rfl
    | _ => exact nomatch hslot

/-- **The builders are jointly injective**: for one user, equal bytes are one call, and the bytes of two slots differ
whoever the users are. -/
theorem aad_injective {c d : Call} {user other : String} {b : Bytes} (hc : c.aad user = some b)
    (hd : d.aad other = some b) : c.slot = d.slot ∧ (user = other → c = d) := by
  have hslot := Call.slot_eq hc hd
  refine ⟨hslot, fun heq => ?_⟩
  rw [← heq] at hd
  exact Call.eq_of_slot hslot hc hd

/-- The bytes of one call of `rekey` are those of that call. -/
theorem aad_injective_rekey : ∃ b, (Call.rekey "pi" 1).aad "u" = some b
    ∧ (Call.rekey "pi" 1).slot = (Call.rekey "pi" 1).slot ∧ ("u" = "u" → Call.rekey "pi" 1 = Call.rekey "pi" 1) := by
  have hsome : ((Call.rekey "pi" 1).aad "u").isSome = true := by decide +kernel
  obtain ⟨b, hb⟩ := Option.isSome_iff_exists.mp hsome
  exact ⟨b, hb, aad_injective hb hb⟩

/-- The generation is part of the bytes. -/
example : (Call.rekey "pi" 1).aad "u" ≠ (Call.rekey "pi" 2).aad "u" := by decide +kernel

end SentryUsb.Crypto
