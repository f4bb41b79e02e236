import MqExits.Otel.Get
import Mathlib.Data.BitVec

/-!
# The substituted get options

What the MQGMO that `mqotGetBefore` puts in place of the application's looks like.

The mask of the property options is meant to select four bits. As the macro expands it selects one
and sets three, so its value is never one of the two the code compares it with
(`propGetOptions_ne`), and the branch that would put the exit's own handle in the structure is never
taken. What the call does leave is the application's structure, lengthened to version 4
(`mqotGetBefore_spec`).
-/

namespace MqExits.Otel

open CText Outcome

/-! ### The decision -/

/-- **The masked options are never the ones compared with**: the bit of
`MQGMO_PROPERTIES_IN_HANDLE` is always set. -/
theorem propGetOptions_ne (options : BitVec 32) :
    propGetOptions options ≠ MQGMO_NO_PROPERTIES ∧
      propGetOptions options ≠ MQGMO_PROPERTIES_AS_Q_DEF := by
  have hbit : (propGetOptions options).getLsbD 27 = true := by
    simp [propGetOptions, MQGMO_PROPERTIES_IN_HANDLE]
  constructor
  · intro h
    rw [h] at hbit
    exact absurd hbit (by decide)
  · intro h
    rw [h] at hbit
    exact absurd hbit (by decide)

/-- The application's structure lengthened to version 4: the fields of its own version, and the
defaults for the rest. -/
def extendGmo (gmo : MQGMO) : MQGMO :=
  { MQGMO_DEFAULT.memcpy gmo (gmoLength gmo) with
    version := max gmo.version MQGMO_VERSION_4 }

/-- The version test of the source takes the larger of the two versions. -/
theorem ite_version_eq (my : MQGMO) :
    (if my.version < MQGMO_VERSION_4 then { my with version := MQGMO_VERSION_4 } else my) =
      { my with version := max my.version MQGMO_VERSION_4 } := by
  split_ifs with h
  · rw [max_eq_right h.le]
  · rw [max_eq_left (not_lt.1 h)]

/-- The application supplies a message handle. -/
def SuppliesHandle (gmo : MQGMO) : Prop :=
  gmo.version ≥ MQGMO_VERSION_4 ∧ isValidHandle gmo.msgHandle = true

instance (gmo : MQGMO) : Decidable (SuppliesHandle gmo) :=
  inferInstanceAs (Decidable (_ ∧ _))

/-- A supplied handle is left to the application. -/
theorem mqotGetBefore_of_suppliesHandle {env : Env} {s : State} {hc : MQHCONN}
    {ho : Option MQHOBJ} {a : AppAddr} (h : SuppliesHandle (s.appGmo a)) :
    mqotGetBefore env s hc ho (.app a) = .ok (.app a, s) := by
  obtain ⟨hv, hm⟩ := h
  simp [mqotGetBefore, State.derefGmo, hv, hm, bind, Except.bind, pure, Except.pure]

/-- **What `mqotGetBefore` does without a supplied handle**: it stashes the application's pointer
in the key's structure and leaves the copy in that structure for the MQGET. -/
theorem mqotGetBefore_spec (env : Env) {s : State} {hc : MQHCONN} {ho : Option MQHOBJ}
    {a : AppAddr} (h : ¬ SuppliesHandle (s.appGmo a)) (hu : s.Usable (objectKey hc ho)) :
    ∃ o obj s', mqotGetBefore env s hc ho (.app a) = .ok (.myGmo o, s') ∧
      optionsAt s' (objectKey hc ho) = .ok (o, obj) ∧ obj.gmo = .app a ∧
      obj.myGmo = extendGmo (s.appGmo a) ∧
      s'.objectHandleMap = s.objectHandleMap ∧ s'.appGmo = s.appGmo := by
  obtain ⟨o, base, s₁, hsave, hopt₁, -, hhm, hag, -⟩ :=
    saveOptions_spec env (fun h ↦ { h with gmo := .app a }) hu
  obtain ⟨hne₁, hne₂⟩ := propGetOptions_ne (s.appGmo a).options
  -- the three writes to the copy: the defaults, the application's fields, the version
  let s₂ := s₁.modifyGmo (.myGmo o) fun _ ↦ MQGMO_DEFAULT
  let s₃ := s₂.modifyGmo (.myGmo o) fun my ↦ my.memcpy (s.appGmo a) (gmoLength (s.appGmo a))
  let s₄ := s₃.modifyGmo (.myGmo o) fun my ↦
    if my.version < MQGMO_VERSION_4 then { my with version := MQGMO_VERSION_4 } else my
  have hopt₄ := optionsAt_modifyGmo (fun my ↦
      if my.version < MQGMO_VERSION_4 then { my with version := MQGMO_VERSION_4 } else my)
    (optionsAt_modifyGmo (fun my ↦ my.memcpy (s.appGmo a) (gmoLength (s.appGmo a)))
      (optionsAt_modifyGmo (fun _ ↦ MQGMO_DEFAULT) hopt₁))
  have hrun : mqotGetBefore env s hc ho (.app a) = .ok (.myGmo o, s₄) := by
    have hpresent : (s₁.objectOptionsMap.lookup (objectKey hc ho)).isNone = false := by
      rw [(optionsAt_eq_ok.1 hopt₁).1]
      rfl
    have hcond : ¬ ((s.appGmo a).version ≥ MQGMO_VERSION_4 ∧
        isValidHandle (s.appGmo a).msgHandle = true) := h
    simp only [mqotGetBefore, State.derefGmo, saveGmo, bind, Except.bind, pure, Except.pure,
      if_neg hcond, hsave, hpresent, hopt₁, hne₁, hne₂, State.modifyGmo_myGmo_appGmo, hag,
      Bool.false_eq_true, if_false, false_and, or_self]
    rfl
  refine ⟨o, _, s₄, hrun, hopt₄, rfl, ?_, ?_, ?_⟩
  · exact ite_version_eq _
  · simpa [s₄, s₃, s₂] using hhm
  · simpa [s₄, s₃, s₂] using hag

theorem usable_of_mqotGetBefore {env : Env} {s : State} {hc : MQHCONN} {ho : Option MQHOBJ}
    {a : AppAddr} {r : PMQGMO × State} (h : ¬ SuppliesHandle (s.appGmo a))
    (hrun : mqotGetBefore env s hc ho (.app a) = .ok r) : s.Usable (objectKey hc ho) := by
  have hcond : ¬ ((s.appGmo a).version ≥ MQGMO_VERSION_4 ∧
      isValidHandle (s.appGmo a).msgHandle = true) := h
  rcases hs : saveGmo env s hc ho (.app a) with e | r'
  · simp [mqotGetBefore, State.derefGmo, bind, Except.bind, hcond, hs] at hrun
  · exact usable_of_saveOptions hs

/-- A version below 1 is copied at full length. -/
theorem extendGmo_msgHandle {gmo : MQGMO} (h : gmo.version < MQGMO_VERSION_1) :
    (extendGmo gmo).msgHandle = gmo.msgHandle := by
  have hne : ∀ v : ℤ, v < 1 → v ≠ 1 ∧ v ≠ 2 ∧ v ≠ 3 := by omega
  obtain ⟨h₁, h₂, h₃⟩ := hne _ h
  simp [extendGmo, MQGMO.memcpy, gmoLength, MQGMO_VERSION_1, MQGMO_VERSION_2, MQGMO_VERSION_3,
    h₁, h₂, h₃]

/-- A handle is in the lengthened structure only when it was in the bytes that were copied. -/
theorem isValidHandle_extendGmo {gmo : MQGMO} (h : ¬ SuppliesHandle gmo) :
    isValidHandle (extendGmo gmo).msgHandle = true ↔
      gmo.version < MQGMO_VERSION_1 ∧ isValidHandle gmo.msgHandle = true := by
  simp only [SuppliesHandle, not_and, ge_iff_le, MQGMO_VERSION_4] at h
  by_cases hshort : gmo.version = 1 ∨ gmo.version = 2 ∨ gmo.version = 3
  · -- the handle is the default one, and a version of 1 to 3 is not below 1
    have hlen : ¬ MQGMO_LENGTH_4 ≤ gmoLength gmo := by
      rcases hshort with hv | hv | hv <;> rw [gmoLength, hv] <;> decide
    have hv : ¬ gmo.version < MQGMO_VERSION_1 := by
      rcases hshort with hv | hv | hv <;> rw [hv] <;> decide
    simp only [extendGmo, MQGMO.memcpy, hlen, if_false, hv, false_and, iff_false]
    decide
  · -- the handle is the application's, and it is valid only below version 1
    simp only [not_or] at hshort
    obtain ⟨h₁, h₂, h₃⟩ := hshort
    have hlen : gmoLength gmo = MQGMO_LENGTH_4 := by
      simp [gmoLength, MQGMO_VERSION_1, MQGMO_VERSION_2, MQGMO_VERSION_3, h₁, h₂, h₃]
    simp only [extendGmo, MQGMO.memcpy, hlen, le_refl, if_true]
    have hfour : ∀ v : ℤ, ¬ v < 1 → v ≠ 1 → v ≠ 2 → v ≠ 3 → 4 ≤ v := by omega
    refine ⟨fun hv ↦ ⟨?_, hv⟩, And.right⟩
    by_contra hlt
    exact h (hfour _ hlt h₁ h₂ h₃) hv

/-! ### What was intended -/

/-- The property bits of an options word. -/
def propertyBits (options : BitVec 32) : BitVec 32 :=
  options &&& (MQGMO_PROPERTIES_FORCE_MQRFH2 ||| MQGMO_PROPERTIES_IN_HANDLE |||
    MQGMO_NO_PROPERTIES ||| MQGMO_PROPERTIES_COMPATIBILITY)

/-- The PROPCTL value recorded for a key. -/
def knownPropCtl (s : State) (key : Bytes) : Option MQLONG :=
  (optionsAt s key).toOption.map fun p ↦ p.2.propCtl

/-- The application, or the queue, is set for not returning any properties. -/
def WantsOwnHandle (s : State) (key : Bytes) (gmo : MQGMO) : Prop :=
  propertyBits gmo.options = MQGMO_NO_PROPERTIES ∨
    propertyBits gmo.options = MQGMO_PROPERTIES_AS_Q_DEF ∧
      knownPropCtl s key = some MQPROP_NONE

/-- `used` is the application's structure with the exit's handle for the key: no field within the
application's version has changed but the version, the options and the handle. -/
structure UsesOwnHandle (s : State) (hc : MQHCONN) (ho : Option MQHOBJ) (gmo used : MQGMO) :
    Prop where
  handle : compareMsgHandle s hc ho used.msgHandle = true
  options : used.options =
    gmo.options &&& ~~~MQGMO_NO_PROPERTIES ||| MQGMO_PROPERTIES_IN_HANDLE
  rest : { used.memcpy gmo (gmoLength gmo) with
    version := used.version, options := used.options, msgHandle := used.msgHandle } = used

/-- The real MQGET is given the structure it should be, and the application's is not modified. -/
def LeavesIntendedGmo (env : Env) (s : State) (hc : MQHCONN) (ho : Option MQHOBJ) (a : AppAddr) :
    Prop :=
  ∃ pp s' used, mqotGetBefore env s hc ho (.app a) = .ok (pp, s') ∧ s'.derefGmo pp = .ok used ∧
    s'.appGmo = s.appGmo ∧
    (WantsOwnHandle s (objectKey hc ho) (s.appGmo a) → UsesOwnHandle s' hc ho (s.appGmo a) used) ∧
    (¬ WantsOwnHandle s (objectKey hc ho) (s.appGmo a) →
      used = extendGmo (s.appGmo a) ∧ isValidHandle used.msgHandle = false)

/-- Where the exit's handle is wanted, the options have to change. -/
theorem options_ne_of_wantsOwnHandle {s : State} {key : Bytes} {gmo : MQGMO}
    (h : WantsOwnHandle s key gmo) :
    gmo.options ≠ gmo.options &&& ~~~MQGMO_NO_PROPERTIES ||| MQGMO_PROPERTIES_IN_HANDLE := by
  intro heq
  have h27 : gmo.options.getLsbD 27 = true := by
    rw [heq]
    simp [MQGMO_PROPERTIES_IN_HANDLE]
  have hbits : (propertyBits gmo.options).getLsbD 27 = true := by
    simp [propertyBits, h27, MQGMO_PROPERTIES_IN_HANDLE]
  rcases h with h | ⟨h, -⟩
  · rw [h] at hbits
    exact absurd hbits (by decide)
  · rw [h] at hbits
    exact absurd hbits (by decide)

/-- **When the real MQGET is given the structure it should be**: when the exit's own handle is not
wanted, and no stale handle stands in a structure of a version below 1. -/
theorem leavesIntendedGmo_iff {env : Env} {s : State} {hc : MQHCONN} {ho : Option MQHOBJ}
    {a : AppAddr} (h : ¬ SuppliesHandle (s.appGmo a)) :
    LeavesIntendedGmo env s hc ho a ↔
      s.Usable (objectKey hc ho) ∧ ¬ WantsOwnHandle s (objectKey hc ho) (s.appGmo a) ∧
        ¬ ((s.appGmo a).version < MQGMO_VERSION_1 ∧
          isValidHandle (s.appGmo a).msgHandle = true) := by
  rw [← isValidHandle_extendGmo h]
  constructor
  · rintro ⟨pp, s', used, hrun, hderef, -, hwants, hnot⟩
    have hu := usable_of_mqotGetBefore h hrun
    obtain ⟨o, obj, s'', hrun', hopt, -, hmy, -, -⟩ := mqotGetBefore_spec env h hu
    rw [hrun'] at hrun
    obtain ⟨rfl, rfl⟩ := Prod.mk.inj (Except.ok.inj hrun)
    rw [derefGmo_of_optionsAt hopt, hmy] at hderef
    obtain rfl := Except.ok.inj hderef
    have hw : ¬ WantsOwnHandle s (objectKey hc ho) (s.appGmo a) := fun hw ↦
      options_ne_of_wantsOwnHandle hw (hwants hw).options
    exact ⟨hu, hw, by simp [(hnot hw).2]⟩
  · rintro ⟨hu, hw, hvalid⟩
    obtain ⟨o, obj, s', hrun, hopt, -, hmy, -, hag⟩ := mqotGetBefore_spec env h hu
    refine ⟨_, s', _, hrun, derefGmo_of_optionsAt hopt, hag, fun hw' ↦ absurd hw' hw, fun _ ↦ ?_⟩
    rw [hmy]
    exact ⟨rfl, Bool.eq_false_iff.2 hvalid⟩

theorem leavesIntendedGmo_iff_plain :
    LeavesIntendedGmo (.creating .sample) .plain 1 none 0 ↔
      State.plain.Usable (objectKey 1 none) ∧
        ¬ WantsOwnHandle .plain (objectKey 1 none) (State.plain.appGmo 0) ∧
        ¬ ((State.plain.appGmo 0).version < MQGMO_VERSION_1 ∧
          isValidHandle (State.plain.appGmo 0).msgHandle = true) :=
  leavesIntendedGmo_iff (by decide)

/-- The state of an application that asks for no properties. -/
def State.noProperties : State :=
  State.init (fun _ ↦ { options := MQGMO_NO_PROPERTIES }) fun _ ↦ MQPMO_DEFAULT

/-- An application that asks for no properties gets no handle from the exit. -/
theorem not_leavesIntendedGmo_noProperties :
    ¬ SuppliesHandle (State.noProperties.appGmo 0) ∧
      ¬ LeavesIntendedGmo (.creating .sample) .noProperties 1 none 0 := by
  refine ⟨by decide, ?_⟩
  rintro ⟨pp, s', used, hrun, hderef, -, hwants, -⟩
  obtain ⟨rfl, rfl⟩ := Prod.mk.inj (Except.ok.inj hrun)
  obtain rfl := Except.ok.inj hderef
  exact absurd (hwants (Or.inl (by decide))).options (by decide)

end MqExits.Otel
