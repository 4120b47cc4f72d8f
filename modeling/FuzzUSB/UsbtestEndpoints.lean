import FuzzUSB.UsbtestIoctl
import Mathlib.Data.List.Basic

/-!
# Endpoint selection in the usbtest driver

`fz_get_endpoints` looks at one fixed altsetting and records the endpoints it offers both in
the device and in the static `usbtest_info` that the device was matched to.
`get_endpoints` takes the first usable altsetting and records in the device only.
-/

namespace FuzzUSB.Usbtest

/-- `struct usb_host_interface`, one altsetting. -/
structure HostInterface where
  bInterfaceNumber : BitVec 8
  bAlternateSetting : BitVec 8
  endpoint : List EndpointDescriptor

/-- `struct usb_interface`; there is at least one altsetting. -/
structure UsbInterface where
  altsetting : List HostInterface
  nonempty : altsetting ≠ []

/-- The endpoints that a search has found so far: `in`, `out`, `iso_in` and so on. -/
abbrev Found := Slot → Option EndpointDescriptor

def endpointUpdate (found : Found) (slot : Slot) (e : EndpointDescriptor) : Found :=
  if (found slot).isNone then Function.update found slot (some e) else found

/-- The slot that an endpoint can fill: its transfer type, as far as `info` enables it, and
its direction. -/
def slotOf (info : UsbtestInfo) (e : EndpointDescriptor) : Option Slot :=
  let dirIn := e.bEndpointAddress.toNat / 128 = 1
  match e.bmAttributes.toNat % 4 with
  | 2 => some (if dirIn then .inBulk else .outBulk)
  | 3 => if info.intr then some (if dirIn then .inInt else .outInt) else none
  | 1 => if info.iso then some (if dirIn then .inIso else .outIso) else none
  | _ => none

/-- One turn of the loop over the endpoints of an altsetting. -/
def scanEndpoint (info : UsbtestInfo) (found : Found) (e : EndpointDescriptor) : Found :=
  match slotOf info e with
  | some slot => endpointUpdate found slot e
  | none => found

def scanAlt (info : UsbtestInfo) (alt : HostInterface) : Found :=
  alt.endpoint.foldl (scanEndpoint info) fun _ => none

/-- `(in && out) || iso_in || iso_out || int_in || int_out`. -/
def usable (found : Found) : Bool :=
  ((found .inBulk).isSome && (found .outBulk).isSome) || (found .inIso).isSome ||
    (found .outIso).isSome || (found .inInt).isSome || (found .outInt).isSome

/-- The loop of `fz_get_endpoints` over the altsettings, from number `tmp` on. -/
def fzSearch (info : UsbtestInfo) (fixAlt : ℤ) :
    ℕ → List HostInterface → Option (HostInterface × Found)
  | _, [] => none
  | tmp, alt :: alts =>
    let found := scanAlt info alt
    -- Numbers count from 0 in the array; they are not `bAlternateSetting`.
    if (tmp : ℤ) ≠ fixAlt then fzSearch info fixAlt (tmp + 1) alts
    else if usable found then some (alt, found)
    else fzSearch info fixAlt (tmp + 1) alts

/-- The loop of `get_endpoints` over the altsettings. -/
def search (info : UsbtestInfo) (overrideAlt : ℤ) :
    List HostInterface → Option (HostInterface × Found)
  | [] => none
  | alt :: alts =>
    if 0 ≤ overrideAlt ∧ overrideAlt ≠ alt.bAlternateSetting.toNat then
      search info overrideAlt alts
    else
      let found := scanAlt info alt
      if usable found then some (alt, found) else search info overrideAlt alts

/-- Selecting the altsetting that was found: the status of `usb_set_interface` where it is
called. -/
def selectAlt (setInterface : ℤ) (alt : HostInterface) : ℤ :=
  if alt.bAlternateSetting ≠ 0 then setInterface else 0

/-- `fz_get_endpoints` and `get_endpoints` after the search: an error, or what to record. -/
def selected (setInterface : ℤ) : Option (HostInterface × Found) → Except ℤ Found
  | none => .ok fun _ => none
  | some (alt, found) =>
    if selectAlt setInterface alt < 0 then .error (selectAlt setInterface alt) else .ok found

def fzGetEndpoints (info : UsbtestInfo) (setInterface : ℤ) (intf : UsbInterface) (fixAlt : ℤ) :
    Except ℤ Found :=
  selected setInterface (fzSearch info fixAlt 0 intf.altsetting)

def getEndpoints (info : UsbtestInfo) (setInterface overrideAlt : ℤ) (intf : UsbInterface) :
    Except ℤ Found :=
  selected setInterface (search info overrideAlt intf.altsetting)

/-- Whether the driver keeps the descriptor of an endpoint along with its pipe. -/
def Slot.keepsDesc : Slot → Bool
  | .inBulk | .outBulk => false
  | _ => true

/-- The assignments for the endpoints that were found, with the pipe macros of the device. -/
def record (pipe : Slot → BitVec 8 → U32) (found : Found) (eps : Endpoints) : Endpoints where
  pipe slot :=
    match found slot with
    | some e => pipe slot (e.bEndpointAddress &&& 0x0f)
    | none => eps.pipe slot
  desc slot :=
    match found slot with
    | some e => if slot.keepsDesc then some e else eps.desc slot
    | none => eps.desc slot

section

variable {pipe : Slot → BitVec 8 → U32} {found : Found} {slot : Slot}

theorem record_of_found {e : EndpointDescriptor} (h : found slot = some e) (eps : Endpoints) :
    (record pipe found eps).pipe slot = pipe slot (e.bEndpointAddress &&& 0x0f) ∧
      (slot.keepsDesc → (record pipe found eps).desc slot = some e) := by
  simp +contextual [record, h]

theorem record_of_not_found (pipe : Slot → BitVec 8 → U32) (h : found slot = none)
    (eps : Endpoints) :
    (record pipe found eps).pipe slot = eps.pipe slot ∧
      (record pipe found eps).desc slot = eps.desc slot := by
  simp [record, h]

end

/-! ## What a search finds -/

/-- The endpoint that an altsetting offers for a slot: the first that fits. -/
def offered (info : UsbtestInfo) (alt : HostInterface) (slot : Slot) : Option EndpointDescriptor :=
  alt.endpoint.find? fun e => slotOf info e = some slot

theorem scanEndpoint_apply (info : UsbtestInfo) (found : Found) (e : EndpointDescriptor)
    (slot : Slot) : scanEndpoint info found e slot =
      (found slot).or (if slotOf info e = some slot then some e else none) := by
  unfold scanEndpoint endpointUpdate
  cases hslot : slotOf info e with
  | none => simp
  | some slot' =>
    by_cases heq : slot' = slot
    · subst heq
      cases hfound : found slot' <;> simp [hfound]
    · have hne : slot ≠ slot' := fun h => heq h.symm
      simp only [Option.some.injEq, heq, if_false, Option.or_none]
      split
      · exact Function.update_of_ne hne _ _
      · rfl

theorem foldl_scanEndpoint (info : UsbtestInfo) (es : List EndpointDescriptor) (found : Found)
    (slot : Slot) : es.foldl (scanEndpoint info) found slot =
      (found slot).or (es.find? fun e => slotOf info e = some slot) := by
  -- A slot keeps the endpoint that it was filled with first.
  induction es generalizing found with
  | nil => simp
  | cons e es ih =>
    rw [List.foldl_cons, ih, scanEndpoint_apply, Option.or_assoc, List.find?_cons]
    by_cases he : slotOf info e = some slot <;> simp [he]

theorem scanAlt_eq (info : UsbtestInfo) (alt : HostInterface) :
    scanAlt info alt = offered info alt := by
  funext slot
  exact foldl_scanEndpoint info alt.endpoint _ slot

theorem fzSearch_eq (info : UsbtestInfo) (fixAlt : ℤ) (tmp : ℕ) (alts : List HostInterface) :
    fzSearch info fixAlt tmp alts =
      (if (tmp : ℤ) ≤ fixAlt then alts[(fixAlt - tmp).toNat]? else none).bind fun alt =>
        if usable (offered info alt) then some (alt, offered info alt) else none := by
  induction alts generalizing tmp with
  | nil => simp [fzSearch]
  | cons alt alts ih =>
    rw [fzSearch, scanAlt_eq]
    by_cases htmp : (tmp : ℤ) = fixAlt
    · subst htmp
      have hlt : ¬((tmp + 1 : ℕ) : ℤ) ≤ tmp := by push_cast; omega
      rw [if_neg (not_not.mpr rfl), ih, if_neg hlt]
      simp
    · rw [if_pos htmp, ih]
      by_cases hle : (tmp : ℤ) + 1 ≤ fixAlt
      · have hsucc : (fixAlt - tmp).toNat = (fixAlt - (tmp + 1)).toNat + 1 := by omega
        rw [if_pos (by push_cast; omega), if_pos (by omega), hsucc, List.getElem?_cons_succ]
        push_cast
        rfl
      · rw [if_neg (by push_cast; omega), if_neg (by omega)]

/-- What `fz_get_endpoints` finds in the altsetting it is fixed to. -/
theorem fzSearch_zero (info : UsbtestInfo) (fixAlt : ℤ) (alts : List HostInterface) :
    fzSearch info fixAlt 0 alts =
      (if 0 ≤ fixAlt then alts[fixAlt.toNat]? else none).bind fun alt =>
        if usable (offered info alt) then some (alt, offered info alt) else none := by
  simpa using fzSearch_eq info fixAlt 0 alts

end FuzzUSB.Usbtest
