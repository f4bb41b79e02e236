import MqExits.Otel.PutPointer
import MqExits.Otel.Traceparent

/-!
# What is read of an MQRFH2 header

Both exits take the end of the name/value text from the `StrucLength` field of the header. Neither
compares it with the length of the message, which both of them are given, nor with the length of the
fixed part. So the text is empty or lies in the message only where the sender's field says so
(`searchedInside_iff`); elsewhere the search reads behind the message, as after a get that has
truncated it, or the text's length is negative.

## What counts as going astray

A read behind the end of the message is a fault (`overRead`). A text of negative length is one of
more than the maximum size of a string, so `std::string` throws, and the exception leaves the exit
(`lengthError`). A text of no length at all reads nothing, wherever it is: a header of just the
fixed part is searched inside a message of any length.

Only the search is meant, so that no other exception of an exit may be taken for it. `LeavesMessage`
names the two outcomes, and for each other part of the two exits there is a lemma which says that it
has neither. The two exits skip different lengths, 36 before a put and 40 after a get, and share one
definition of what they read (`headerText`).
-/

namespace MqExits.Otel

open CText Outcome

/-- The header's text behind the first `skip` bytes, as its `StrucLength` bounds it. -/
def headerText (skip : ℤ) (buffer : Bytes) : Cpp Bytes := do
  let len ← strucLength buffer
  stringAt buffer skip (len - skip)

/-- The header's `StrucLength` can be read, and is that of the first `skip` bytes, or more and ends
in the message. -/
def HeaderFits (skip : ℤ) (buffer : Bytes) : Prop :=
  ∃ len, Returns (strucLength buffer) len ∧ (len = skip ∨ skip ≤ len ∧ len ≤ buffer.length)

/-- The code reads outside the message, or makes a string of a negative length. -/
def LeavesMessage {α : Type} (m : Cpp α) : Prop :=
  StopsWith m (.fault .overRead) ∨ StopsWith m (.throw .lengthError)

theorem not_leavesMessage_of_returns {α : Type} {m : Cpp α} {a : α} (h : Returns m a) :
    ¬ LeavesMessage m := by
  rintro (hstop | hstop)
  · exact h.not_stopsWith _ hstop
  · exact h.not_stopsWith _ hstop

theorem leavesMessage_map_iff {α β : Type} {f : α → β} {m : Cpp α} :
    LeavesMessage (f <$> m) ↔ LeavesMessage m := by
  rw [LeavesMessage, stopsWith_map, stopsWith_map, LeavesMessage]

/-- The field is read, or the message is too short to have it. -/
theorem strucLength_cases (buffer : Bytes) :
    (∃ len, Returns (strucLength buffer) len) ∨
      StopsWith (strucLength buffer) (.fault .overRead) := by
  rw [strucLength]
  split
  · exact Or.inl ⟨_, returns_pure.2 rfl⟩
  · exact Or.inr (stopsWith_fault.2 rfl)

theorem leavesMessage_stringAt {buffer : Bytes} {offset len : ℤ}
    (h : ¬ (len = 0 ∨ 0 ≤ len ∧ offset + len ≤ buffer.length)) :
    LeavesMessage (stringAt buffer offset len) := by
  rw [stringAt]
  split_ifs with hneg hend
  · exact Or.inr (stopsWith_throw.2 rfl)
  · omega
  · exact Or.inl (stopsWith_fault.2 rfl)

/-- The text is read exactly when the field says that it is there, and else the code goes astray. -/
theorem leavesMessage_headerText_iff {skip : ℤ} {buffer : Bytes} :
    LeavesMessage (headerText skip buffer) ↔ ¬ HeaderFits skip buffer := by
  constructor
  · rintro h ⟨len, hlen, hinside⟩
    obtain ⟨text, htext⟩ := exists_returns_stringAt.2
      (show len - skip = 0 ∨ 0 ≤ len - skip ∧ skip + (len - skip) ≤ buffer.length by omega)
    have hreturns : Returns (headerText skip buffer) text := returns_bind.2 ⟨len, hlen, htext⟩
    exact not_leavesMessage_of_returns hreturns h
  · intro h
    rcases strucLength_cases buffer with ⟨len, hlen⟩ | hover
    · have hleaves : LeavesMessage (stringAt buffer skip (len - skip)) :=
        leavesMessage_stringAt fun hinside ↦ h ⟨len, hlen, by omega⟩
      rcases hleaves with hstop | hstop
      · exact Or.inl (stopsWith_bind.2 (Or.inr ⟨len, hlen, hstop⟩))
      · exact Or.inr (stopsWith_bind.2 (Or.inr ⟨len, hlen, hstop⟩))
    · exact Or.inl (stopsWith_bind.2 (Or.inl hover))

/-! ### Before a put -/

theorem rfh2Skips_eq {msg : PutMessage} (hformat : msg.hasRfh2 = true) :
    rfh2Skips msg = (fun props ↦ (findIsTrue props TRACEPARENT, findIsTrue props TRACESTATE)) <$>
      headerText MQRFH_STRUC_LENGTH_FIXED_2 msg.buffer := by
  rw [rfh2Skips, if_pos hformat, headerText, map_bind]
  simp only [bind_pure_comp]

theorem derefPmo_ne_overRead (s : State) (pp : PMQPMO) : s.derefPmo pp ≠ .error .overRead := by
  rw [State.derefPmo.eq_def]
  split
  · simp
  · simp
  · split <;> simp

theorem optionsAt_ne_overRead (s : State) (key : Bytes) : optionsAt s key ≠ .error .overRead := by
  rw [optionsAt.eq_def]
  split
  · split <;> simp
  · simp
  · simp

theorem saveOptions_ne_overRead (env : Env) (s : State) (key : Bytes)
    (stash : HobjOptions → HobjOptions) : saveOptions env s key stash ≠ .error .overRead := by
  intro h
  rw [saveOptions.eq_def] at h
  split at h
  · cases h
  · split at h
    · cases h
    · rename_i e he
      obtain rfl := Except.error.inj h
      exact optionsAt_ne_overRead s key he

/-- The message is not read before its header is. -/
theorem putTarget_ne_overRead (env : Env) (s : State) (hc : MQHCONN) (ho : Option MQHOBJ)
    (pp : PMQPMO) : putTarget env s hc ho pp ≠ .error .overRead := by
  intro h
  rw [putTarget] at h
  rcases bind_eq_error.1 h with h | ⟨pmo, -, h⟩
  · exact derefPmo_ne_overRead s pp h
  split_ifs at h
  · cases h
  · cases h
  rcases bind_eq_error.1 h with h | ⟨⟨o, s₁⟩, -, h⟩
  · exact saveOptions_ne_overRead _ _ _ _ h
  rcases bind_eq_error.1 h with h | ⟨pmo', -, h⟩
  · exact derefPmo_ne_overRead _ pp h
  cases h

/-- Whatever the state and the other arguments, the put stays in the message. -/
def PutMessage.SearchedInside (msg : PutMessage) : Prop :=
  ∀ env s hc ho pp, mqotPutBefore env s hc ho msg pp ≠ .error .overRead ∧
    ∀ r, mqotPutBefore env s hc ho msg pp = .ok r → r.outcome ≠ .error .lengthError

theorem putSearchedInside_iff {msg : PutMessage} (hformat : msg.hasRfh2 = true) :
    msg.SearchedInside ↔ HeaderFits MQRFH_STRUC_LENGTH_FIXED_2 msg.buffer := by
  have hleaves : LeavesMessage (rfh2Skips msg) ↔
      ¬ HeaderFits MQRFH_STRUC_LENGTH_FIXED_2 msg.buffer := by
    rw [rfh2Skips_eq hformat, leavesMessage_map_iff, leavesMessage_headerText_iff]
  rw [← not_iff_not, ← hleaves, PutMessage.SearchedInside]
  constructor
  · intro h
    by_contra hnot
    refine h fun env s hc ho pp ↦ ⟨fun hrun ↦ ?_, fun r hrun hr ↦ ?_⟩
    · rw [mqotPutBefore] at hrun
      rcases bind_eq_error.1 hrun with ht | ⟨t, -, hrun⟩
      · exact putTarget_ne_overRead env s hc ho pp ht
      · rcases bind_eq_error.1 hrun with hskips | ⟨skips, -, hrun⟩
        · exact hnot (Or.inl hskips)
        · split at hrun <;> cases hrun
    · obtain ⟨t, -, hrun⟩ := bind_eq_ok.1 hrun
      obtain ⟨skips, hskips, hrun⟩ := bind_eq_ok.1 hrun
      split at hrun
      · obtain rfl := Except.ok.inj hrun
        obtain rfl := Except.error.inj hr
        exact hnot (Or.inr hskips)
      · obtain rfl := Except.ok.inj hrun
        cases hr
  · -- a put of an application that supplies no handle comes as far as the header
    intro h hall
    obtain ⟨t, ht⟩ : ∃ t, putTarget (.refusing .sample) .plain 1 none (.app 0) = .ok t := ⟨_, rfl⟩
    obtain ⟨hover, hlength⟩ := hall (.refusing .sample) .plain 1 none (.app 0)
    rcases h with hstop | hstop
    · refine hover ?_
      simp only [mqotPutBefore, ht, bind, Except.bind, show (rfh2Skips msg).run = _ from hstop]
    · refine hlength ⟨t.ppPutMsgOpts, t.state, .error .lengthError⟩ ?_ rfl
      simp only [mqotPutBefore, ht, bind, Except.bind, show (rfh2Skips msg).run = _ from hstop]
      rfl

/-! ### After a get -/

/-- Does the message descriptor announce an MQRFH2 header? -/
def GetCall.hasRfh2 (call : GetCall) : Bool :=
  call.format.any (strncmpEq · MQFMT_RF_HEADER_2 8)

theorem receivedProps_eq {env : Env} {call : GetCall} {mh : MQHMSG}
    (hmh : ¬ isValidHandle mh = true) (hmsg : call.haveMsg = true) (hformat : call.hasRfh2 = true) :
    receivedProps env call mh =
      (fun props ↦ (extractRFH2PropVal props TRACEPARENT, extractRFH2PropVal props TRACESTATE)) <$>
        headerText (MQRFH_STRUC_LENGTH_FIXED_2 + 4) call.buffer := by
  rw [receivedProps, if_neg hmh, if_pos ⟨hmsg, hformat⟩, headerText, map_bind]
  simp only [bind_pure_comp, sub_sub]

theorem not_leavesMessage_stoi (text : Bytes) : ¬ LeavesMessage (stoi text) := by
  rw [LeavesMessage, stoi]
  split
  · simp
  · rename_i e he
    rcases e with - | - <;> simp [ofStoi]

theorem not_leavesMessage_hexToBinary (hex buf : Bytes) (buflen : ℕ) :
    ¬ LeavesMessage (hexToBinary hex buf buflen) := by
  have hstep : ∀ (stop : Stop), (∀ text, ¬ StopsWith (stoi text) stop) →
      ¬ StopsWith (hexToBinary hex buf buflen) stop := by
    intro stop hstoi
    refine not_stopsWith_foldlM (fun acc i ↦ ?_) _ _
    rw [stopsWith_bind]
    rintro (h | ⟨v, -, h⟩)
    · exact hstoi _ h
    · exact stopsWith_pure h
  rintro (h | h)
  · exact hstep _ (fun text htext ↦ not_leavesMessage_stoi text (Or.inl htext)) h
  · exact hstep _ (fun text htext ↦ not_leavesMessage_stoi text (Or.inr htext)) h

/-- What comes after the search neither reads the message nor makes a string of a given length. -/
theorem not_leavesMessage_linkContext (env : Env) (traceparentVal tracestateVal : Bytes) :
    ¬ LeavesMessage (linkContext env traceparentVal tracestateVal) := by
  have hparent : ¬ LeavesMessage (parentContext env traceparentVal) := by
    rw [parentContext]
    split_ifs
    · simp [LeavesMessage]
    split
    · simp [LeavesMessage]
    · rename_i elem₁ elem₂ elem₃ _
      have htrace := not_leavesMessage_hexToBinary elem₁ env.uninitTraceId.val 16
      have hspan := not_leavesMessage_hexToBinary elem₂ env.uninitSpanId.val 8
      rw [LeavesMessage, not_or] at htrace hspan ⊢
      simp [htrace, hspan]
    · simp [LeavesMessage]
  rw [linkContext]
  split_ifs
  · rw [LeavesMessage, not_or] at hparent ⊢
    simp [hparent]
  · simp [LeavesMessage]

/-- **A get without a message handle** leaves the message where its search does. -/
theorem getAfter_leaves_iff {env : Env} {s : State} {call : GetCall} {pp : PMQGMO} {gmo : MQGMO}
    (hgmo : s.derefGmo pp = .ok gmo) (hmh : ¬ isValidHandle gmo.msgHandle = true) :
    (mqotGetAfter env s call pp = .error .overRead ∨
        ∃ r, mqotGetAfter env s call pp = .ok r ∧ r.outcome = .error .lengthError) ↔
      LeavesMessage (receivedProps env call gmo.msgHandle) := by
  have hpp : restoredGmo s call gmo.msgHandle pp = .ok pp := if_neg fun h ↦ hmh h.1
  have hleaves : ∀ {α : Type} (m : Cpp α), LeavesMessage m ↔
      m.run = .error .overRead ∨ m.run = .ok (.error .lengthError) := fun _ ↦ Iff.rfl
  rw [hleaves]
  rcases hprops : (receivedProps env call gmo.msgHandle).run with e | (e | ⟨parent, state⟩)
  · have hrun : mqotGetAfter env s call pp = .error e := by
      simp only [mqotGetAfter, hgmo, hprops, bind, Except.bind]
    simp [hrun]
  · have hrun : mqotGetAfter env s call pp = .ok ⟨pp, .error e⟩ := by
      simp only [mqotGetAfter, hgmo, hprops, hpp, bind, Except.bind]
      rfl
    simp [hrun]
  · -- what comes after the search does not leave the message
    have hlink := not_leavesMessage_linkContext env parent state
    rw [hleaves] at hlink
    rcases hlinked : (linkContext env parent state).run with e | link
    · have hrun : mqotGetAfter env s call pp = .error e := by
        simp only [mqotGetAfter, hgmo, hprops, hpp, hlinked, bind, Except.bind]
      rw [hlinked] at hlink
      simpa [hrun] using hlink
    · have hrun : mqotGetAfter env s call pp = .ok ⟨pp, link⟩ := by
        simp only [mqotGetAfter, hgmo, hprops, hpp, hlinked, bind, Except.bind]
        rfl
      rw [hlinked] at hlink
      simpa [hrun] using hlink

/-- Whatever the state and the pointer, a get without a message handle stays in the message. -/
def GetCall.SearchedInside (call : GetCall) : Prop :=
  ∀ env s pp gmo, s.derefGmo pp = .ok gmo → ¬ isValidHandle gmo.msgHandle = true →
    mqotGetAfter env s call pp ≠ .error .overRead ∧
      ∀ r, mqotGetAfter env s call pp = .ok r → r.outcome ≠ .error .lengthError

theorem getSearchedInside_iff {call : GetCall} (hmsg : call.haveMsg = true)
    (hformat : call.hasRfh2 = true) :
    call.SearchedInside ↔ HeaderFits (MQRFH_STRUC_LENGTH_FIXED_2 + 4) call.buffer := by
  have hinside : ∀ env s pp gmo, s.derefGmo pp = .ok gmo → ¬ isValidHandle gmo.msgHandle = true →
      ((mqotGetAfter env s call pp ≠ .error .overRead ∧
          ∀ r, mqotGetAfter env s call pp = .ok r → r.outcome ≠ .error .lengthError) ↔
        HeaderFits (MQRFH_STRUC_LENGTH_FIXED_2 + 4) call.buffer) := by
    intro env s pp gmo hgmo hmh
    have hleaves : _ ↔ LeavesMessage (receivedProps env call gmo.msgHandle) :=
      getAfter_leaves_iff hgmo hmh
    rw [receivedProps_eq hmh hmsg hformat, leavesMessage_map_iff,
      leavesMessage_headerText_iff] at hleaves
    rw [← not_iff_not, ← hleaves]
    simp only [not_and_or, not_forall, ne_eq, not_not, exists_prop]
  constructor
  · intro hall
    have hmh : ¬ isValidHandle MQGMO_DEFAULT.msgHandle = true := by decide
    exact (hinside (.refusing .sample) .plain (.app 0) MQGMO_DEFAULT rfl hmh).1
      (hall _ _ _ MQGMO_DEFAULT rfl hmh)
  · exact fun hfits env s pp gmo hgmo hmh ↦ (hinside env s pp gmo hgmo hmh).2 hfits

/-! ### Both exits -/

/-- **When the search for the properties stays in the message**: its `StrucLength` is no less than
what the search takes to be before the text, and if it is more, then no more than the length of the
message. -/
theorem searchedInside_iff {msg : PutMessage} {call : GetCall} (hput : msg.hasRfh2 = true)
    (hmsg : call.haveMsg = true) (hget : call.hasRfh2 = true) :
    (msg.SearchedInside ↔ HeaderFits 36 msg.buffer) ∧
      (call.SearchedInside ↔ HeaderFits 40 call.buffer) :=
  ⟨putSearchedInside_iff hput, getSearchedInside_iff hmsg hget⟩

/-- The first 48 bytes of a message whose header is of 60 bytes. -/
def truncatedHeader : Bytes :=
  (rfh2Message (lit "<usr><a>1</a></usr> ")).take 48

/-- A put of these bytes. -/
def PutMessage.truncated : PutMessage :=
  ⟨some MQFMT_RF_HEADER_2, truncatedHeader⟩

/-- A get into a buffer of 48 bytes. -/
def GetCall.truncated : GetCall :=
  { GetCall.of MQFMT_RF_HEADER_2 truncatedHeader with
    compCode := .WARNING
    reason := MQRC_TRUNCATED_MSG_ACCEPTED }

theorem searchedInside_iff_truncated :
    (PutMessage.truncated.SearchedInside ↔ HeaderFits 36 truncatedHeader) ∧
      (GetCall.truncated.SearchedInside ↔ HeaderFits 40 truncatedHeader) :=
  searchedInside_iff (by decide) (by decide) (by decide)

/-- The search reads behind the message, before the put and after the get. -/
theorem not_searchedInside_truncated :
    (PutMessage.truncated.hasRfh2 = true ∧ ¬ PutMessage.truncated.SearchedInside) ∧
      (GetCall.truncated.haveMsg = true ∧ GetCall.truncated.hasRfh2 = true ∧
        ¬ GetCall.truncated.SearchedInside) := by
  have hfits (skip : ℤ) (hskip : skip < 60) : ¬ HeaderFits skip truncatedHeader := by
    rintro ⟨len, hlen, hinside⟩
    have hstated : Returns (strucLength truncatedHeader) 60 := rfl
    obtain rfl := Except.ok.inj (Except.ok.inj (hstated.symm.trans hlen))
    have hlength : truncatedHeader.length = 48 := rfl
    omega
  refine ⟨⟨by decide, ?_⟩, by decide, by decide, ?_⟩
  · rw [putSearchedInside_iff (by decide)]
    exact hfits _ (by decide)
  · rw [getSearchedInside_iff (by decide) (by decide)]
    exact hfits _ (by decide)

end MqExits.Otel
