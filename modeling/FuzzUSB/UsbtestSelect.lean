import FuzzUSB.UsbtestBinding

/-!
# What `fz_get_endpoints` selects

`fz_get_endpoints` records an endpoint of each kind in the device and, from there, in its
`usbtest_info`. The endpoints are those of one altsetting, which is fixed by its number.
-/

namespace FuzzUSB.Usbtest

/-- The endpoints of `dev` and of `dev->info`. -/
structure DevRecords where
  dev : Endpoints
  info : Endpoints

/-- The assignments behind `found`. Those to `dev->info` copy what `dev` has by then. -/
def fzRecord (pipe : Slot → BitVec 8 → U32) (found : Found) (r : DevRecords) : DevRecords :=
  let dev := record pipe found r.dev
  { dev := dev
    info :=
      { pipe := fun slot => if (found slot).isSome then dev.pipe slot else r.info.pipe slot
        desc := fun slot =>
          if (found slot).isSome && slot.keepsDesc then dev.desc slot else r.info.desc slot } }

/-- `fz_get_endpoints` for the array `intf->altsetting`, with its status and the records as
it leaves them. -/
def fzGetEndpointsOn (pipe : Slot → BitVec 8 → U32) (info : UsbtestInfo) (setInterface : ℤ)
    (altsetting : List HostInterface) (fixAlt : ℤ) (r : DevRecords) : ℤ × DevRecords :=
  match fzSearch info fixAlt 0 altsetting with
  | none => (0, r)
  | some (alt, found) =>
    if selectAlt setInterface alt < 0 then (selectAlt setInterface alt, r)
    else (0, fzRecord pipe found r)

/-! ## The two records are kept in step -/

theorem fzRecord_eq (pipe : Slot → BitVec 8 → U32) (found : Found) (r : DevRecords) :
    fzRecord pipe found r = ⟨record pipe found r.dev, record pipe found r.info⟩ := by
  have hpipe : (fun slot => if (found slot).isSome then (record pipe found r.dev).pipe slot
      else r.info.pipe slot) = (record pipe found r.info).pipe := by
    funext slot
    cases hfound : found slot <;> simp [record, hfound]
  have hdesc : (fun slot => if (found slot).isSome && slot.keepsDesc
      then (record pipe found r.dev).desc slot else r.info.desc slot) =
        (record pipe found r.info).desc := by
    funext slot
    cases hfound : found slot <;> cases hkeeps : slot.keepsDesc <;> simp [record, hfound, hkeeps]
  simp only [fzRecord, hpipe, hdesc]

/-- A probe does to both records what it is told to record. -/
theorem fzGetEndpointsOn_eq (pipe : Slot → BitVec 8 → U32) (info : UsbtestInfo)
    (setInterface : ℤ) (intf : UsbInterface) (fixAlt : ℤ) (r : DevRecords) :
    fzGetEndpointsOn pipe info setInterface intf.altsetting fixAlt r =
      match fzGetEndpoints info setInterface intf fixAlt with
      | .ok found => (0, ⟨record pipe found r.dev, record pipe found r.info⟩)
      | .error status => (status, r) := by
  unfold fzGetEndpointsOn fzGetEndpoints
  cases fzSearch info fixAlt 0 intf.altsetting with
  | none => rfl
  | some chosen =>
    obtain ⟨alt, found⟩ := chosen
    dsimp only [selected]
    split
    · rfl
    · rw [fzRecord_eq]

/-! ## The specification -/

/-- The kind of an endpoint; control endpoints have none. -/
def EndpointDescriptor.kind (e : EndpointDescriptor) : Option Slot :=
  let dirIn := e.bEndpointAddress.toNat / 128 = 1
  match e.bmAttributes.toNat % 4 with
  | 1 => some (if dirIn then .inIso else .outIso)
  | 2 => some (if dirIn then .inBulk else .outBulk)
  | 3 => some (if dirIn then .inInt else .outInt)
  | _ => none

/-- The kinds that the flags `intr` and `iso` leave enabled. -/
def UsbtestInfo.enables (info : UsbtestInfo) : Slot → Bool
  | .inBulk | .outBulk => true
  | .inInt | .outInt => info.intr
  | .inIso | .outIso => info.iso

def HostInterface.Has (alt : HostInterface) (kind : Slot) : Prop :=
  ∃ e ∈ alt.endpoint, e.kind = some kind

/-- A bulk pair, or an endpoint of another kind that is enabled. -/
def HostInterface.Offers (alt : HostInterface) (info : UsbtestInfo) : Prop :=
  (alt.Has .inBulk ∧ alt.Has .outBulk) ∨ (info.intr ∧ (alt.Has .inInt ∨ alt.Has .outInt)) ∨
    (info.iso ∧ (alt.Has .inIso ∨ alt.Has .outIso))

/-- `e` is the first endpoint of its kind in the altsetting. -/
def HostInterface.First (alt : HostInterface) (kind : Slot) (e : EndpointDescriptor) : Prop :=
  e.kind = some kind ∧ ∃ before after, alt.endpoint = before ++ e :: after ∧
    ∀ e' ∈ before, e'.kind ≠ some kind

/-- Altsetting number `fixAlt` of the list. -/
def fixedAlt (altsetting : List HostInterface) (fixAlt : ℤ) : Option HostInterface :=
  if 0 ≤ fixAlt then altsetting[fixAlt.toNat]? else none

/-- The altsetting is the fixed one, can be used, and is selected unless it is the default. -/
structure Selectable (info : UsbtestInfo) (setInterface : ℤ) (altsetting : List HostInterface)
    (fixAlt : ℤ) (alt : HostInterface) : Prop where
  fixed : fixedAlt altsetting fixAlt = some alt
  offers : alt.Offers info
  set : alt.bAlternateSetting ≠ 0 → 0 ≤ setInterface

/-- Both records have the pipe of the first endpoint of each of the kinds that are taken,
and their own where there is no such endpoint. -/
structure TakesPipes (taken : Slot → Bool) (pipe : Slot → BitVec 8 → U32) (alt : HostInterface)
    (r t : DevRecords) : Prop where
  sets : ∀ kind e, taken kind → alt.First kind e →
    t.dev.pipe kind = pipe kind (e.bEndpointAddress &&& 0x0f) ∧
      t.info.pipe kind = pipe kind (e.bEndpointAddress &&& 0x0f)
  keeps : ∀ kind, ¬(taken kind ∧ alt.Has kind) →
    t.dev.pipe kind = r.dev.pipe kind ∧ t.info.pipe kind = r.info.pipe kind

/-- `fz_get_endpoints` takes the pipes of the fixed altsetting if it can, and none otherwise;
the other altsettings do not matter. -/
structure TakesFixed (taken : Slot → Bool) (pipe : Slot → BitVec 8 → U32) (info : UsbtestInfo)
    (setInterface : ℤ) (altsetting : List HostInterface) (fixAlt : ℤ) (r : DevRecords) :
    Prop where
  takes : ∀ alt, Selectable info setInterface altsetting fixAlt alt →
    TakesPipes taken pipe alt r (fzGetEndpointsOn pipe info setInterface altsetting fixAlt r).2
  otherwise : (∀ alt, ¬Selectable info setInterface altsetting fixAlt alt) →
    let t := (fzGetEndpointsOn pipe info setInterface altsetting fixAlt r).2
    t.dev.pipe = r.dev.pipe ∧ t.info.pipe = r.info.pipe
  others : ∀ altsetting', fixedAlt altsetting' fixAlt = fixedAlt altsetting fixAlt →
    fzGetEndpointsOn pipe info setInterface altsetting' fixAlt r =
      fzGetEndpointsOn pipe info setInterface altsetting fixAlt r

/-! ## What the altsetting offers -/

section

variable {info : UsbtestInfo} {alt : HostInterface} {kind : Slot} {e : EndpointDescriptor}

/-- The flags take endpoints away, and leave the kind of the others. -/
theorem slotOf_eq (info : UsbtestInfo) (e : EndpointDescriptor) :
    slotOf info e = e.kind.filter info.enables := by
  have htype : e.bmAttributes.toNat % 4 = 0 ∨ e.bmAttributes.toNat % 4 = 1 ∨
      e.bmAttributes.toNat % 4 = 2 ∨ e.bmAttributes.toNat % 4 = 3 := by omega
  by_cases hin : e.bEndpointAddress.toNat / 128 = 1 <;> rcases htype with h | h | h | h <;>
    simp only [slotOf, EndpointDescriptor.kind, h, hin, if_true, if_false] <;> rfl

theorem slotOf_eq_some_iff :
    slotOf info e = some kind ↔ e.kind = some kind ∧ info.enables kind := by
  rw [slotOf_eq, Option.filter_eq_some_iff]

theorem offered_of_enables (h : info.enables kind = true) :
    offered info alt kind = alt.endpoint.find? fun e => e.kind = some kind := by
  unfold offered
  simp only [slotOf_eq_some_iff, h, and_true]

theorem offered_of_not_enables (h : ¬info.enables kind = true) : offered info alt kind = none := by
  apply List.find?_eq_none.mpr
  intro e _
  rw [decide_eq_true_eq, slotOf_eq_some_iff]
  exact fun he => h he.2

theorem offered_of_first (hkind : info.enables kind = true) (he : alt.First kind e) :
    offered info alt kind = some e := by
  obtain ⟨he, before, after, hsplit, hbefore⟩ := he
  rw [offered_of_enables hkind, List.find?_eq_some_iff_append]
  refine ⟨by simpa using he, before, after, hsplit, fun e' he' => ?_⟩
  simpa using hbefore e' he'

theorem offered_isSome_iff :
    (offered info alt kind).isSome ↔ info.enables kind ∧ alt.Has kind := by
  by_cases hkind : info.enables kind = true
  · rw [offered_of_enables hkind, List.find?_isSome]
    simp only [decide_eq_true_eq, hkind, true_and]
    rfl
  · rw [offered_of_not_enables hkind]
    simp [hkind]

theorem usable_iff_offers : usable (offered info alt) = true ↔ alt.Offers info := by
  simp only [usable, Bool.or_eq_true, Bool.and_eq_true, offered_isSome_iff, UsbtestInfo.enables,
    true_and, HostInterface.Offers]
  tauto

end

section

variable {pipe : Slot → BitVec 8 → U32} {info : UsbtestInfo} {setInterface fixAlt : ℤ}
  {altsetting : List HostInterface} {alt : HostInterface} {r : DevRecords}

theorem fzSearch_fixedAlt (info : UsbtestInfo) (altsetting : List HostInterface) (fixAlt : ℤ) :
    fzSearch info fixAlt 0 altsetting = (fixedAlt altsetting fixAlt).bind fun alt =>
      if usable (offered info alt) then some (alt, offered info alt) else none :=
  fzSearch_zero info fixAlt altsetting

theorem selectAlt_nonneg_iff :
    ¬selectAlt setInterface alt < 0 ↔ (alt.bAlternateSetting ≠ 0 → 0 ≤ setInterface) := by
  unfold selectAlt
  split
  · next hne =>
    rw [Int.not_lt]
    exact ⟨fun h _ => h, fun h => h hne⟩
  · next heq => exact ⟨fun _ hne => absurd hne heq, fun _ => by decide⟩

theorem fzGetEndpointsOn_selectable (h : Selectable info setInterface altsetting fixAlt alt) :
    fzGetEndpointsOn pipe info setInterface altsetting fixAlt r =
      (0, fzRecord pipe (offered info alt) r) := by
  unfold fzGetEndpointsOn
  rw [fzSearch_fixedAlt, h.fixed, Option.bind_some, if_pos (usable_iff_offers.mpr h.offers)]
  exact if_neg (selectAlt_nonneg_iff.mpr h.set)

theorem fzGetEndpointsOn_otherwise
    (h : ∀ alt, ¬Selectable info setInterface altsetting fixAlt alt) :
    (fzGetEndpointsOn pipe info setInterface altsetting fixAlt r).2 = r := by
  unfold fzGetEndpointsOn
  rw [fzSearch_fixedAlt]
  cases halt : fixedAlt altsetting fixAlt with
  | none => rfl
  | some alt =>
    rw [Option.bind_some]
    by_cases husable : usable (offered info alt) = true
    · rw [if_pos husable]
      have hfails : selectAlt setInterface alt < 0 := by
        by_contra hset
        exact h alt ⟨halt, usable_iff_offers.mp husable, selectAlt_nonneg_iff.mp hset⟩
      exact congrArg Prod.snd (if_pos hfails)
    · rw [if_neg husable]

/-- An enabled kind has the pipe of its first endpoint; the others keep theirs. -/
theorem fzRecord_takesPipes :
    TakesPipes info.enables pipe alt r (fzRecord pipe (offered info alt) r) where
  sets kind e hkind he := by
    have hfound := offered_of_first hkind he
    rw [fzRecord_eq]
    exact ⟨(record_of_found hfound r.dev).1, (record_of_found hfound r.info).1⟩
  keeps kind hkind := by
    rw [← offered_isSome_iff, Option.not_isSome_iff_eq_none] at hkind
    rw [fzRecord_eq]
    exact ⟨(record_of_not_found pipe hkind r.dev).1, (record_of_not_found pipe hkind r.info).1⟩

end

/-- `fz_get_endpoints` takes the pipes of the kinds that are enabled. -/
theorem fzGetEndpointsOn_takesFixed (pipe : Slot → BitVec 8 → U32) (info : UsbtestInfo)
    (setInterface : ℤ) (altsetting : List HostInterface) (fixAlt : ℤ) (r : DevRecords) :
    TakesFixed info.enables pipe info setInterface altsetting fixAlt r where
  takes alt h := by
    rw [fzGetEndpointsOn_selectable h]
    exact fzRecord_takesPipes
  otherwise h := by
    rw [fzGetEndpointsOn_otherwise h]
    exact ⟨rfl, rfl⟩
  others altsetting' h := by
    unfold fzGetEndpointsOn
    rw [fzSearch_fixedAlt, fzSearch_fixedAlt, h]

/-- A bulk pair and an interrupt endpoint behind it. -/
def bulkPairAndInt : HostInterface :=
  ⟨0, 0, [⟨0x81, 2, 512, 0⟩, ⟨0x02, 2, 512, 0⟩, ⟨0x83, 3, 8, 10⟩]⟩

/-- The entry for printers has `intr` off, so that an interrupt endpoint is left out even
beside a bulk pair that is taken. -/
theorem fzGetEndpointsOn_skips_disabled :
    ¬TakesFixed (fun _ => true) (fun _ ep => 0x80000000 ||| ep.setWidth 32) InfoId.prtFz.info 0
      [bulkPairAndInt] 0 ⟨.zero, .zero⟩ := by
  intro h
  have hsel : Selectable InfoId.prtFz.info 0 [bulkPairAndInt] 0 bulkPairAndInt :=
    ⟨rfl, .inl ⟨⟨⟨0x81, 2, 512, 0⟩, by decide, by decide⟩,
      ⟨⟨0x02, 2, 512, 0⟩, by decide, by decide⟩⟩, fun _ => Int.le_refl 0⟩
  have hset := (h.takes _ hsel).sets .inInt ⟨0x83, 3, 8, 10⟩ rfl
    ⟨by decide, [⟨0x81, 2, 512, 0⟩, ⟨0x02, 2, 512, 0⟩], [], rfl, by decide⟩
  exact absurd hset.1 (by decide)

end FuzzUSB.Usbtest
