import FuzzUSB.Transition
import FuzzUSB.CLayout
import Mathlib.Data.Finset.Basic

/-!
# The emulated devices of the executor

`syz_usb_connect` opens a raw gadget, parses the descriptors of the device into the next slot
of `usb_devices` and stores the descriptor number there. The table is never cleaned, and a
slot that was not filled has the number 0.
-/

namespace FuzzUSB.UsbRaw
open Transition CLayout

/-! ## Parsing -/

/-- Memory of the program from an address on; a byte that cannot be read is `none`. -/
abbrev Buffer := ℕ → Option Byte

/-- The sizes of `struct usb_device_descriptor`, `struct usb_config_descriptor` and
`struct usb_endpoint_descriptor`. -/
def deviceDescSize : ℕ := 18
def configDescSize : ℕ := 9
def endpointDescSize : ℕ := 9

def usbDtInterface : ℕ := 4
def usbDtEndpoint : ℕ := 5

def usbMaxIfaceNum : ℕ := 4
def usbMaxEpNum : ℕ := 32

structure UsbIfaceIndex where
  /-- The offset of `iface` in the buffer. -/
  iface : ℕ
  bInterfaceNumber : Byte
  bAlternateSetting : Byte
  eps : List (List Byte)

structure UsbDeviceIndex where
  /-- The buffer that `dev` and `config` point into. -/
  dev : Buffer
  bMaxPower : Byte
  configLength : BitVec 32
  ifaces : List UsbIfaceIndex

/-- `memcpy(dst, buffer + offset, n)`. -/
def readBytes (buffer : Buffer) (offset n : ℕ) : Option (List Byte) :=
  (List.range n).mapM fun i => buffer (offset + i)

/-- An endpoint is added to the last interface, if that has room. -/
def parseEndpoint (buffer : Buffer) (offset : ℕ) (ifaces : List UsbIfaceIndex) :
    Option (List UsbIfaceIndex) :=
  match ifaces.getLast? with
  | none => some ifaces
  | some last =>
    if last.eps.length < usbMaxEpNum then do
      let ep ← readBytes buffer offset endpointDescSize
      return ifaces.dropLast ++ [{ last with eps := last.eps ++ [ep] }]
    else some ifaces

/-- What one descriptor adds to the index. -/
def parseDescriptor (buffer : Buffer) (offset descType : ℕ) (ifaces : List UsbIfaceIndex) :
    Option (List UsbIfaceIndex) :=
  if descType = usbDtInterface ∧ ifaces.length < usbMaxIfaceNum then do
    let number ← buffer (offset + 2)
    let setting ← buffer (offset + 3)
    return ifaces ++ [⟨offset, number, setting, []⟩]
  else if descType = usbDtEndpoint then parseEndpoint buffer offset ifaces
  else some ifaces

/-- The loop of `parse_usb_descriptor`. -/
def parseDescriptors (buffer : Buffer) (length offset : ℕ) (ifaces : List UsbIfaceIndex) :
    Option (List UsbIfaceIndex) :=
  if offset + 1 ≥ length then some ifaces
  else match buffer offset, buffer (offset + 1) with
    | some descLength, some descType =>
      if _h : descLength.toNat ≤ 2 ∨ offset + descLength.toNat > length then some ifaces
      else match parseDescriptor buffer offset descType.toNat ifaces with
        | some ifaces => parseDescriptors buffer length (offset + descLength.toNat) ifaces
        | none => none
    | _, _ => none
  termination_by length - offset
  decreasing_by omega

/-- `parse_usb_descriptor`, or `none` when it fails or faults. -/
def parseUsbDescriptor (buffer : Buffer) (length : ℕ) : Option UsbDeviceIndex :=
  if length < deviceDescSize + configDescSize then none
  else do
    -- `bMaxPower` is the ninth byte of the configuration descriptor.
    let bMaxPower ← buffer (deviceDescSize + 8)
    let ifaces ← parseDescriptors buffer length 0 []
    return ⟨buffer, bMaxPower, BitVec.ofNat 32 (length - deviceDescSize), ifaces⟩

/-! ## The table -/

def maxUsbFds : ℕ := 6

structure UsbInfo where
  fd : ℤ
  index : Option UsbDeviceIndex

/-- A device that reached `add_usb_index`, with what its blob parses to. -/
structure Attempt where
  fd : ℕ
  index : Option UsbDeviceIndex

/-- The executor's table and counter, the open descriptors, and for the raw gadgets among
them which attempt opened each. -/
structure State where
  usbDevices : List UsbInfo
  usbDevicesNum : ℕ
  fds : Finset ℕ
  attempts : List Attempt
  owner : ℕ → Option ℕ

/-- Before the first call, with any descriptors open. The table is static, so zero. -/
def State.start (fds : Finset ℕ) : State :=
  ⟨List.replicate maxUsbFds ⟨0, none⟩, 0, fds, [], fun _ => none⟩

/-- `lookup_usb_index`, which returns the index of this slot. -/
def State.lookupUsbIndex (s : State) (fd : ℤ) : Option ℕ :=
  s.usbDevices.findIdx? fun info => info.fd = fd

/-- `add_usb_index` with a raw gadget just opened. From 2^31 calls on the counter is
negative and the slot outside the table. -/
def State.addUsbIndex (s : State) (fd : ℕ) (dev : Buffer) (devLen : ℕ) : Option State :=
  let index := parseUsbDescriptor dev devLen
  if s.usbDevicesNum ≥ 2147483648 then none
  else some
    { usbDevices :=
        if s.usbDevicesNum < maxUsbFds ∧ index.isSome then
          s.usbDevices.set s.usbDevicesNum ⟨fd, index⟩
        else s.usbDevices
      usbDevicesNum := s.usbDevicesNum + 1
      fds := insert fd s.fds
      attempts := s.attempts ++ [⟨fd, index⟩]
      owner := Function.update s.owner fd (some s.usbDevicesNum) }

inductive Event
  /-- `syz_usb_connect`, with the number that `open` returns if it succeeds. What fails
  behind `add_usb_index` changes neither the table nor the open descriptors. -/
  | connect (dev : Option Buffer) (devLen : ℕ) (opened : Option ℕ)
  /-- `syz_usb_disconnect` -/
  | disconnect (fd : ℤ)

/-- `maxFds` is the executor's `MAX_FDS`. The kernel hands out numbers that are not open. -/
def step (maxFds : ℕ) (s : State) : Event → Option State
  | .connect none _ _ => some s
  | .connect (some _) _ none => some s
  | .connect (some dev) devLen (some fd) =>
    if fd ∈ s.fds then none
    else if fd ≥ maxFds then some s
    else s.addUsbIndex fd dev devLen
  | .disconnect fd => some { s with
      fds := s.fds.filter fun n => (n : ℤ) ≠ fd
      owner := fun n => if (n : ℤ) = fd then none else s.owner n }

/-! ## The property -/

/-- Some attempt put the number into the table. -/
def State.Registered (s : State) (fd : ℤ) : Prop :=
  ∃ k < maxUsbFds, ∃ c, s.attempts[k]? = some c ∧ c.index.isSome ∧ (c.fd : ℤ) = fd

/-- A raw gadget that is open is found with the index parsed for it, in the slot of its own
attempt, and a number that was not registered is not found. -/
structure Resolves (s : State) : Prop where
  opened : ∀ n k, s.owner n = some k → ∃ c, s.attempts[k]? = some c ∧ c.index.isSome ∧
    s.lookupUsbIndex n = some k ∧ s.usbDevices[k]? = some ⟨n, c.index⟩
  unregistered : ∀ n, ¬s.Registered n → s.lookupUsbIndex n = none

/-- The attempt with number `k` got one of the six slots and filled it. -/
def State.Filled (s : State) (k : ℕ) : Prop :=
  k < maxUsbFds ∧ ∃ c, s.attempts[k]? = some c ∧ c.index.isSome

/-- Every open raw gadget filled a slot, and no slot before it was filled with its number (or,
if that is 0, left unfilled). The six slots are filled, or one of them with 0. -/
structure Fits (s : State) : Prop where
  filled : ∀ n k, s.owner n = some k → s.Filled k
  first : ∀ n k, s.owner n = some k → ∀ j < k, ∀ c, s.attempts[j]? = some c →
    if c.index.isSome then c.fd ≠ n else n ≠ 0
  zero : s.Registered 0 ∨ ∀ k < maxUsbFds, s.Filled k

/-! ## The table and the history -/

/-- What an attempt puts into its slot. -/
def Attempt.slot (c : Attempt) : UsbInfo := if c.index.isSome then ⟨c.fd, c.index⟩ else ⟨0, none⟩

/-- What slot `k` holds after some attempts. -/
def slotAt (attempts : List Attempt) (k : ℕ) : UsbInfo :=
  (attempts[k]?.map Attempt.slot).getD ⟨0, none⟩

/-- The table is what the attempts have made of it, and each open raw gadget has the number
of its attempt. -/
structure Consistent (s : State) : Prop where
  table : s.usbDevices = (List.range maxUsbFds).map (slotAt s.attempts)
  num : s.usbDevicesNum = s.attempts.length
  owned : ∀ n k, s.owner n = some k → ∃ c, s.attempts[k]? = some c ∧ c.fd = n

theorem slotAt_eq {attempts : List Attempt} {k : ℕ} {c : Attempt} (h : attempts[k]? = some c) :
    slotAt attempts k = c.slot := by
  simp [slotAt, h]

theorem slotAt_concat (attempts : List Attempt) (c : Attempt) (k : ℕ) :
    slotAt (attempts ++ [c]) k = if k = attempts.length then c.slot else slotAt attempts k := by
  split
  · next h =>
    subst h
    simp [slotAt]
  · next h =>
    rcases Nat.lt_or_gt_of_ne h with hlt | hgt
    · simp [slotAt, List.getElem?_append_left hlt]
    · have hlen : (attempts ++ [c]).length ≤ k := by
        rw [List.length_append, List.length_singleton]
        omega
      simp [slotAt, List.getElem?_eq_none hlen, List.getElem?_eq_none (Nat.le_of_lt hgt)]

section

variable {s t : State}

theorem State.filled_iff {k : ℕ} :
    s.Filled k ↔ k < maxUsbFds ∧ (slotAt s.attempts k).index.isSome := by
  apply and_congr_right
  intro _
  cases hk : s.attempts[k]? with
  | none => simp [slotAt, hk]
  | some c => cases hc : c.index <;> simp [slotAt, hk, Attempt.slot, hc]

/-- A slot that is not filled has the number 0. -/
theorem State.fd_of_not_filled {k : ℕ} (hk : k < maxUsbFds) (h : ¬s.Filled k) :
    (slotAt s.attempts k).fd = 0 := by
  rw [State.filled_iff, and_iff_right hk] at h
  cases hc : s.attempts[k]? with
  | none => simp [slotAt, hc]
  | some c => cases hi : c.index <;> simp_all [slotAt, Attempt.slot]

/-- A number in a filled slot was registered. -/
theorem State.Filled.registered {k : ℕ} (h : s.Filled k) :
    s.Registered (slotAt s.attempts k).fd := by
  obtain ⟨hk, c, hc, hindex⟩ := h
  exact ⟨k, hk, c, hc, hindex, by simp [slotAt_eq hc, Attempt.slot, hindex]⟩

theorem Consistent.lookup_eq_some (hs : Consistent s) {fd : ℤ} {k : ℕ} :
    s.lookupUsbIndex fd = some k ↔ k < maxUsbFds ∧ (slotAt s.attempts k).fd = fd ∧
      ∀ j < k, (slotAt s.attempts j).fd ≠ fd := by
  rw [State.lookupUsbIndex, hs.table, List.findIdx?_eq_some_iff_getElem]
  simp only [List.length_map, List.length_range, List.getElem_map, List.getElem_range,
    decide_eq_true_eq, exists_and_left, exists_prop]
  tauto

theorem Consistent.lookup_eq_none (hs : Consistent s) {fd : ℤ} :
    s.lookupUsbIndex fd = none ↔ ∀ k < maxUsbFds, (slotAt s.attempts k).fd ≠ fd := by
  rw [State.lookupUsbIndex, hs.table, List.findIdx?_eq_none_iff]
  simp

theorem Consistent.fits (hs : Consistent s) (hr : Resolves s) : Fits s := by
  constructor
  · intro n k hn
    obtain ⟨c, hc, hindex, hlookup, -⟩ := hr.opened n k hn
    exact ⟨(hs.lookup_eq_some.mp hlookup).1, c, hc, hindex⟩
  · intro n k hn j hj c hc
    obtain ⟨-, -, -, hlookup, -⟩ := hr.opened n k hn
    have hne := (hs.lookup_eq_some.mp hlookup).2.2 j hj
    rw [slotAt_eq hc, Attempt.slot] at hne
    split at hne
    · next hindex => simpa [hindex] using hne
    · next hindex => simpa [hindex] using Ne.symm hne
  · by_contra hno
    rw [not_or] at hno
    apply hno.2
    intro k hk
    by_contra hfilled
    exact hs.lookup_eq_none.mp (hr.unregistered 0 hno.1) k hk (State.fd_of_not_filled hk hfilled)

theorem Consistent.resolves (hs : Consistent s) (hf : Fits s) : Resolves s := by
  constructor
  · intro n k hn
    obtain ⟨c, hc, hfd⟩ := hs.owned n k hn
    obtain ⟨hk, c', hc', hindex⟩ := hf.filled n k hn
    obtain rfl := Option.some.inj (hc.symm.trans hc')
    have hslot : slotAt s.attempts k = ⟨n, c.index⟩ := by
      rw [slotAt_eq hc, Attempt.slot, if_pos hindex, hfd]
    refine ⟨c, hc, hindex, hs.lookup_eq_some.mpr ⟨hk, by rw [hslot], fun j hj => ?_⟩, ?_⟩
    · have hlen : j < s.attempts.length :=
        hj.trans (List.getElem?_eq_some_iff.mp hc).1
      have hfirst := hf.first n k hn j hj _ (List.getElem?_eq_getElem hlen)
      rw [slotAt_eq (List.getElem?_eq_getElem hlen), Attempt.slot]
      split at hfirst
      · next hi => simpa [hi] using hfirst
      · next hi =>
        simp only [hi, Bool.false_eq_true, if_false]
        omega
    · simp [hs.table, hk, hslot]
  · intro n hn
    rw [hs.lookup_eq_none]
    rintro k hk rfl
    by_cases hfilled : s.Filled k
    · exact hn hfilled.registered
    · rcases hf.zero with hzero | hall
      · rw [State.fd_of_not_filled hk hfilled] at hn
        exact hn hzero
      · exact hfilled (hall k hk)

theorem Consistent.addUsbIndex (hs : Consistent s) {fd : ℕ} {dev : Buffer} {devLen : ℕ}
    (h : s.addUsbIndex fd dev devLen = some t) : Consistent t := by
  unfold State.addUsbIndex at h
  split at h
  · cases h
  · obtain rfl := Option.some.inj h
    constructor
    · -- The new attempt has the slot behind the earlier ones.
      simp only [hs.table, hs.num]
      split
      · next hput =>
        apply List.ext_getElem (by simp)
        intro k hk _
        rw [List.getElem_set, List.getElem_map, List.getElem_map, List.getElem_range,
          slotAt_concat]
        by_cases hlast : s.attempts.length = k
        · rw [if_pos hlast, if_pos hlast.symm, Attempt.slot, if_pos hput.2]
        · rw [if_neg hlast, if_neg (Ne.symm hlast)]
      · next hput =>
        apply List.map_congr_left
        intro k hk
        rw [slotAt_concat]
        split
        · next hlast =>
          have hfailed : ¬(parseUsbDescriptor dev devLen).isSome := fun hi =>
            hput ⟨hlast ▸ List.mem_range.mp hk, hi⟩
          rw [Attempt.slot, if_neg hfailed, hlast]
          simp [slotAt]
        · rfl
    · simp [hs.num]
    · intro n k hn
      simp only at hn
      by_cases hfd : n = fd
      · subst hfd
        rw [Function.update_self, hs.num] at hn
        obtain rfl := Option.some.inj hn
        exact ⟨_, List.getElem?_concat_length, rfl⟩
      · rw [Function.update_of_ne hfd] at hn
        obtain ⟨c, hc, hcn⟩ := hs.owned n k hn
        exact ⟨c, List.getElem?_append_left (List.getElem?_eq_some_iff.mp hc).1 ▸ hc, hcn⟩

theorem Consistent.step {maxFds : ℕ} {e : Event} (hs : Consistent s)
    (h : step maxFds s e = some t) : Consistent t := by
  cases e with
  | connect dev devLen opened =>
    cases dev with
    | none =>
      obtain rfl := Option.some.inj h
      exact hs
    | some dev =>
      cases opened with
      | none =>
        obtain rfl := Option.some.inj h
        exact hs
      | some fd =>
        simp only [UsbRaw.step] at h
        split at h
        · cases h
        · split at h
          · obtain rfl := Option.some.inj h
            exact hs
          · exact hs.addUsbIndex h
  | disconnect fd =>
    obtain rfl := Option.some.inj h
    refine ⟨hs.table, hs.num, fun n k hn => hs.owned n k ?_⟩
    simp only at hn
    split at hn
    · cases hn
    · exact hn

theorem consistent_run (maxFds : ℕ) (fds : Finset ℕ) (es : List Event)
    (h : runs (step maxFds) (.start fds) es = some t) : Consistent t :=
  runs_invariant (fun _ _ _ hs h => hs.step h) ⟨rfl, rfl, by simp [State.start]⟩ h

end

/-- In every state of every run, the open devices resolve exactly if they fit the table. -/
theorem resolves_iff_fits (maxFds : ℕ) (fds : Finset ℕ) (es : List Event) :
    Always (step maxFds) (fun s => Resolves s ↔ Fits s) (.start fds) es := by
  rw [always_iff]
  intro pre t _ ht
  have hs := consistent_run maxFds fds pre ht
  exact ⟨hs.fits, hs.resolves⟩

/-- The least blob that parses: zeros, so that there is no descriptor behind the two. -/
theorem parse_zeros : (parseUsbDescriptor (fun _ => some 0) 27).isSome := by
  simp [parseUsbDescriptor, parseDescriptors, deviceDescSize, configDescSize]

/-- Connect, disconnect, and connect again with the number reused. -/
def reconnect : List Event :=
  [.connect (some fun _ => some 0) 27 (some 3), .disconnect 3,
   .connect (some fun _ => some 0) 27 (some 3)]

theorem reconnect_finds_old_device : ¬Always (step 30) Resolves (.start {0, 1, 2}) reconnect := by
  intro h
  have hlast := always_iff.mp h reconnect _ (List.prefix_refl _) rfl
  obtain ⟨-, -, -, hlookup, -⟩ := hlast.opened 3 1 rfl
  have hs := consistent_run 30 {0, 1, 2} reconnect rfl
  have hfirst := (hs.lookup_eq_some.mp hlookup).2.2 0 (by decide)
  -- The first slot has the number still.
  rw [slotAt_eq (c := ⟨3, parseUsbDescriptor (fun _ => some 0) 27⟩) rfl, Attempt.slot,
    if_pos parse_zeros] at hfirst
  exact hfirst rfl

end FuzzUSB.UsbRaw
