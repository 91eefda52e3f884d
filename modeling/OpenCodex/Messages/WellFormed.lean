import OpenCodex.Messages.Grammar

/-!
# The stream is well formed

Whatever is read, the events that are written can be read in order, and when the controller is closed
the end has been reached (`written_well_formed`).  One lemma for each stretch of code says from which
places it starts and where it leads.
-/

set_option autoImplicit false

namespace Messages

open Act (Ensures Keeps when forSome)

variable (E : MessagesEnv) {t : Bool} {p q : Progress} {o : Option OpenBlock} {n : ℕ}

/-! ## Blocks -/

theorem read_start {n : ℕ} {block : ContentBlock} :
    (Progress.between n).read false (.blockStart n block) = some (.inside n block.kind) := if_pos rfl

variable {kind : BlockKind}

theorem read_delta {n : ℕ} {delta : Delta} (h : kind.takes delta = true) :
    (Progress.inside n kind).read false (.blockDelta n delta) = some (.inside n kind) :=
  if_pos ⟨rfl, h⟩

theorem read_stop {n : ℕ} :
    (Progress.inside n kind).read false (.blockStop n) = some (.between (n + 1)) := if_pos rfl

theorem inside_ne_over {n : ℕ} : Progress.inside n kind ≠ .over := Progress.noConfusion

theorem between_ne_over {n : ℕ} : Progress.between n ≠ .over := Progress.noConfusion

theorem ensureStarted_running :
    Ensures (Live t) (ensureStarted E) (fun _ ↦ Running t) fun _ ↦ Midway := by
  refine .read fun s h ↦ ?_
  rcases h with h | h
  · rw [Act.when_pos h.started]
    -- started is set before anything is written
    have hbegin : Ensures (Unstarted t) (do
        modify fun s : MessageStream ↦ { s with started := true }
        let id ← uuid E
        emit (.messageStart (messageSnapshot E id s.earlyAnthropicUsage))
        emit .ping) (fun _ ↦ Stage t (.between 0) none 0) fun _ ↦ Midway := by
      refine .bind (Q := fun _ ↦ Stage t .fresh none 0) (.modify fun s h ↦ ?_)
        fun _ ↦ Ensures.bind (Stage.uuid E) fun _ ↦
          Ensures.bind (Stage.emit Progress.noConfusion rfl) fun _ ↦ Stage.emit between_ne_over rfl
      exact ⟨h.read, h.opened, h.index, rfl, h.terminated, h.delivered⟩
    exact (hbegin.post fun _ s h ↦ ⟨none, 0, trivial, h⟩) s h
  · have hstarted : ¬s.started = false := by
      obtain ⟨_, _, _, hstage⟩ := h
      rw [hstage.started]
      exact Bool.noConfusion
    rw [Act.when_neg hstarted]
    exact h

/-- No block is open. -/
def Closed (t : Bool) (s : MessageStream) : Prop := ∃ n, Stage t (.between n) none n s

variable {s : MessageStream}

theorem Closed.running (h : Closed t s) : Running t s :=
  let ⟨n, hn⟩ := h
  ⟨none, n, trivial, hn⟩

theorem stage_closed : ∀ (a : PUnit) (s : MessageStream), Stage t (.between n) none n s → Closed t s :=
  fun _ _ h ↦ ⟨n, h⟩

theorem closeThinking_closed (block : ThinkingBlock) :
    Ensures (Stage t (.between n) o n) (closeThinking E block) (fun _ ↦ Closed t) fun _ ↦ Midway := by
  unfold closeThinking
  refine .ite (fun _ ↦ ?_) fun _ ↦ ?_
  · exact (Stage.setOpen none).post stage_closed
  · refine Stage.withIndex ?_
    have hblock : Ensures (Stage t (.between n) o (n + 1)) (do
        emit (.blockStart n .thinking)
        when (block.thinkingBuf ≠ []) (emit (.blockDelta n (.thinking block.thinkingBuf)))
        when (block.reasoningSig = none) ask
        emit (.blockDelta n (.signature (signatureOf E block)))
        emit (.blockStop n)
        setOpen none) (fun _ ↦ Stage t (.between (n + 1)) none (n + 1)) fun _ ↦ Midway :=
      Ensures.bind (Stage.emit between_ne_over read_start) fun _ ↦
      Ensures.bind (Keeps.when fun _ ↦ Stage.emit inside_ne_over (read_delta rfl)) fun _ ↦
      Ensures.bind (Keeps.when fun _ ↦ Stage.ask inside_ne_over) fun _ ↦
      Ensures.bind (Stage.emit inside_ne_over (read_delta rfl)) fun _ ↦
      Ensures.bind (Stage.emit inside_ne_over read_stop) fun _ ↦ Stage.setOpen none
    exact hblock.post stage_closed

theorem closeTool_closed (block : ToolBlock) (hnew : block.index + 1 = n) :
    Ensures (Stage t (.inside block.index .tool) o n) (closeTool block) (fun _ ↦ Closed t)
      fun _ ↦ Midway := by
  unfold closeTool
  refine Ensures.bind (Keeps.when fun _ ↦ Stage.emit inside_ne_over (read_delta rfl)) fun _ ↦
    Ensures.bind (Stage.emit inside_ne_over read_stop) fun _ ↦ ?_
  rw [hnew]
  exact (Stage.setOpen none).post stage_closed

/-- **Closing** what is open. -/
theorem closeOpenBlock_closed :
    Ensures (Running t) (closeOpenBlock E) (fun _ ↦ Closed t) fun _ ↦ Midway := by
  refine .read fun s h ↦ ?_
  obtain ⟨o, n, hnew, hstage⟩ := h
  rw [hstage.opened]
  match o, hnew, hstage with
  | none, _, hstage => exact ⟨n, hstage⟩
  | some (.text index), hnew, hstage =>
    have hclose : Ensures (Stage t (.inside index .text) (some (.text index)) n) (do
        emit (.blockStop index)
        setOpen none) (fun _ ↦ Closed t) fun _ ↦ Midway := by
      refine Ensures.bind (Stage.emit inside_ne_over read_stop) fun _ ↦ ?_
      rw [hnew]
      exact (Stage.setOpen none).post stage_closed
    exact hclose s hstage
  | some (.thinking block), _, hstage => exact closeThinking_closed E block s hstage
  | some (.toolUse block), hnew, hstage => exact closeTool_closed block hnew s hstage

theorem closeOpenBlock_live :
    Ensures (Live t) (closeOpenBlock E) (fun _ s ↦ Unstarted t s ∨ Closed t s) fun _ ↦ Midway := by
  intro s h
  rcases h with h | h
  · have hnothing : closeOpenBlock E s = (.ok ⟨⟩, s) := by
      rw [closeOpenBlock, Act.bind_run, Act.get_run, Act.andThen_ok, h.opened]
      rfl
    rw [hnothing]
    exact .inl h
  · exact (closeOpenBlock_closed E).post (fun _ _ h ↦ .inr h) s h

theorem closing_live {P : Prop} [Decidable P] :
    Keeps (Live t) (fun _ ↦ Midway) (when P (closeOpenBlock E)) :=
  Keeps.when fun _ ↦ (closeOpenBlock_live E).post fun _ _ h ↦ h.imp_right Closed.running

theorem ensureText_running :
    Ensures (Live t) (ensureText E) (fun _ ↦ Running t) fun _ ↦ Midway := by
  refine .bind (ensureStarted_running E) fun _ ↦ .read fun s h ↦ ?_
  refine Keeps.when (P := Running t) (fun _ ↦ ?_) s h
  refine Ensures.bind (closeOpenBlock_closed E) fun _ ↦ ?_
  intro s hs
  obtain ⟨n, hs⟩ := hs
  have hopen : Ensures (Stage t (.between n) none n) (do
      let index ← nextIndex
      emit (.blockStart index .text)
      setOpen (some (.text index))) (fun _ ↦ Running t) fun _ ↦ Midway := by
    refine Stage.withIndex (Ensures.bind (Stage.emit between_ne_over read_start) fun _ ↦
      (Stage.setOpen (some (.text n))).post fun _ s h ↦ ?_)
    exact ⟨some (.text n), n + 1, rfl, h⟩
  exact hopen s hs

theorem ensureThinking_running :
    Ensures (Live t) (ensureThinking E) (fun _ ↦ Running t) fun _ ↦ Midway := by
  refine .bind (ensureStarted_running E) fun _ ↦ .read fun s h ↦ ?_
  refine Keeps.when (P := Running t) (fun _ ↦ ?_) s h
  refine Ensures.bind (closeOpenBlock_closed E) fun _ ↦ ?_
  intro s hs
  obtain ⟨n, hs⟩ := hs
  exact ((Stage.setOpen (some (.thinking {}))).post
    fun _ s h ↦ ⟨some (.thinking {}), n, trivial, h⟩) s hs

/-! ## Events -/

variable {R : Overflow → MessageStream → Prop}

theorem Live.modify {g : MessageStream → MessageStream}
    (hg : ∀ s, (g s).written = s.written ∧ (g s).opened = s.opened ∧
      (g s).blockIndex = s.blockIndex ∧ (g s).started = s.started ∧
      (g s).terminated = s.terminated ∧ (g s).terminalDelivered = s.terminalDelivered) :
    Keeps (Live t) R (modify g) := by
  refine .modify fun s h ↦ ?_
  obtain ⟨hw, ho, hi, hs, ht, hd⟩ := hg s
  rcases h with h | ⟨o, n, hnew, h⟩
  · exact .inl ⟨hw ▸ h.read, ho ▸ h.opened, hi ▸ h.index, hs ▸ h.started, ht ▸ h.terminated,
      hd ▸ h.delivered⟩
  · exact .inr ⟨o, n, hnew, hw ▸ h.read, ho ▸ h.opened, hi ▸ h.index, hs ▸ h.started,
      ht ▸ h.terminated, hd ▸ h.delivered⟩

theorem Live.granted (h : Live t s) (g : Option ℕ) : Live t { s with grants := g } := by
  rcases h with h | ⟨o, n, hnew, h⟩
  · exact .inl ⟨h.read, h.opened, h.index, h.started, h.terminated, h.delivered⟩
  · exact .inr ⟨o, n, hnew, h.read, h.opened, h.index, h.started, h.terminated, h.delivered⟩

theorem ask_live : Keeps (Live t) (fun _ ↦ Midway) ask :=
  ask_ensures (fun _ g h ↦ h.granted g) fun _ h ↦ h.midway

theorem readAll_ping (h : Progress.fresh.readAll false s.written = some p) :
    Progress.fresh.readAll false (s.written ++ [.ping]) = some p := by
  rw [readAll_concat h]
  cases p <;> rfl

theorem Live.pinged (h : Live t s) : Live t { s with written := s.written ++ [.ping] } := by
  rcases h with h | ⟨o, n, hnew, h⟩
  · exact .inl ⟨readAll_ping h.read, h.opened, h.index, h.started, h.terminated, h.delivered⟩
  · exact .inr ⟨o, n, hnew, readAll_ping h.read, h.opened, h.index, h.started, h.terminated,
      h.delivered⟩

theorem ping_live : Keeps (Live t) (fun _ ↦ Midway) (emit .ping) :=
  Keeps.bind ask_live fun _ ↦ .modify fun _ h ↦ h.pinged

variable (data : Json)

theorem onLifecycle_live : Keeps (Live t) (fun _ ↦ Midway) (onLifecycle data) := by
  refine Live.modify fun s ↦ ?_
  dsimp only
  split_ifs <;> exact ⟨rfl, rfl, rfl, rfl, rfl, rfl⟩

theorem onTextDelta_live : Keeps (Live t) (fun _ ↦ Midway) (onTextDelta E data) := by
  refine Keeps.forSome fun delta ↦ Ensures.bind (ensureText_running E) fun _ ↦
    Ensures.read fun s h ↦ ?_
  obtain ⟨o, n, hnew, hstage⟩ := h
  rw [hstage.opened]
  match o, hnew, hstage with
  | none, hnew, hstage => exact .inr ⟨none, n, hnew, hstage⟩
  | some (.text index), hnew, hstage =>
    exact ((Stage.emit inside_ne_over (read_delta rfl)).post
      fun _ s h ↦ .inr ⟨some (.text index), n, hnew, h⟩) s hstage
  | some (.thinking block), hnew, hstage => exact .inr ⟨some (.thinking block), n, hnew, hstage⟩
  | some (.toolUse block), hnew, hstage => exact .inr ⟨some (.toolUse block), n, hnew, hstage⟩

theorem onReasoningDelta_live (summary : Bool) (data : Json) :
    Keeps (Live t) (fun _ ↦ Midway) (onReasoningDelta E summary data) := by
  refine .forSome fun delta ↦ .read fun s h ↦ ?_
  refine (Ensures.bind (closing_live E) fun _ ↦ Ensures.bind (ensureThinking_running E) fun _ ↦
    Ensures.read fun s h ↦ ?_) s h
  obtain ⟨o, n, hnew, hstage⟩ := h
  rw [hstage.opened]
  match o, hnew, hstage with
  | none, hnew, hstage => exact .inr ⟨none, n, hnew, hstage⟩
  | some (.text index), hnew, hstage => exact .inr ⟨some (.text index), n, hnew, hstage⟩
  | some (.thinking block), hnew, hstage =>
    exact (Ensures.bind (Stage.ask between_ne_over) fun _ ↦ (Stage.setOpen _).post
      fun _ s h ↦ .inr ⟨some (.thinking _), n, trivial, h⟩) s hstage
  | some (.toolUse block), hnew, hstage => exact .inr ⟨some (.toolUse block), n, hnew, hstage⟩

/-- A tool block is open. -/
def InTool (t : Bool) (block : ToolBlock) (n : ℕ) : MessageStream → Prop :=
  Stage t (.inside block.index .tool) (some (.toolUse block)) n

variable {block : ToolBlock}

theorem InTool.running (hnew : block.index + 1 = n) (h : InTool t block n s) :
    Running t s := ⟨some (.toolUse block), n, hnew, h⟩

theorem setOpen_tool {index : ℕ} (hnew : index + 1 = n) (hindex : block.index = index) :
    Ensures (Stage t (.inside index .tool) o n) (setOpen (some (.toolUse block)))
      (fun _ ↦ Running t) R := by
  subst hindex
  exact (Stage.setOpen _).post fun _ _ h ↦ InTool.running hnew h

theorem onItemAdded_live : Keeps (Live t) (fun _ ↦ Midway) (onItemAdded E data) := by
  refine Keeps.forSome fun item ↦ Ensures.bind (ensureStarted_running E) fun _ ↦
    Ensures.bind (closeOpenBlock_closed E) fun _ ↦ ?_
  intro s hs
  obtain ⟨n, hs⟩ := hs
  refine (Ensures.bind (Stage.modify (g := fun s ↦ { s with sawToolUse := true })
    fun s ↦ ⟨rfl, rfl, rfl, rfl, rfl, rfl⟩) fun _ ↦ Stage.withIndex ?_) s hs
  refine Ensures.bind (Stage.uuid E) fun fresh ↦
    Ensures.bind (Stage.emit between_ne_over read_start) fun _ ↦
      (setOpen_tool rfl rfl).mono (fun _ h ↦ h) (fun _ _ h ↦ .inr h) fun _ _ h ↦ h

theorem emitArguments_running (block : ToolBlock) (hnew : block.index + 1 = n)
    (arguments : Option JsString) :
    Ensures (InTool t block n) (emitArguments block arguments) (fun _ ↦ Running t)
      fun _ ↦ Midway := by
  unfold emitArguments
  cases (if (block.bufferWebSearchArgs || block.toolArgsEmitted) = true then none else arguments) with
  | none => exact fun s h ↦ h.running hnew
  | some arguments =>
    exact Ensures.bind (Stage.emit inside_ne_over (read_delta rfl)) fun _ ↦ setOpen_tool hnew rfl

theorem Live.inTool (h : Live t s) (hopened : s.opened = some (.toolUse block)) :
    InTool t block (block.index + 1) s := by
  rcases h with h | ⟨o, n, hnew, hstage⟩
  · rw [h.opened] at hopened
    nomatch hopened
  · obtain rfl := hstage.opened.symm.trans hopened
    obtain rfl : block.index + 1 = n := hnew
    exact hstage

theorem Live.inThinking (h : Live t s) {block : ThinkingBlock}
    (hopened : s.opened = some (.thinking block)) :
    Stage t (.between s.blockIndex) (some (.thinking block)) s.blockIndex s := by
  rcases h with h | ⟨o, n, -, hstage⟩
  · rw [h.opened] at hopened
    nomatch hopened
  · obtain rfl := hstage.opened.symm.trans hopened
    obtain rfl := hstage.index
    exact hstage

theorem onArgumentsDelta_live : Keeps (Live t) (fun _ ↦ Midway) (onArgumentsDelta data) := by
  refine .forSome fun delta ↦ .read fun s h ↦ ?_
  cases hopened : s.opened with
  | none => exact h
  | some block =>
    cases block with
    | text index => exact h
    | thinking block => exact h
    | toolUse block =>
      have hcode : Ensures (InTool t block (block.index + 1)) (if block.bufferWebSearchArgs then do
            ask
            setOpen (some (.toolUse { block with argsBuf := block.argsBuf ++ delta }))
          else do
            emit (.blockDelta block.index (.inputJson delta))
            setOpen (some (.toolUse { block with toolArgsEmitted := true }))) (fun _ ↦ Running t)
          fun _ ↦ Midway := by
        refine .ite (fun _ ↦ ?_) fun _ ↦ ?_
        · exact Ensures.bind (Stage.ask inside_ne_over) fun _ ↦ setOpen_tool rfl rfl
        · exact Ensures.bind (Stage.emit inside_ne_over (read_delta rfl)) fun _ ↦
            setOpen_tool rfl rfl
      exact (hcode.post fun _ _ h ↦ .inr h) s (h.inTool hopened)

theorem onArgumentsDone_live : Keeps (Live t) (fun _ ↦ Midway) (onArgumentsDone data) := by
  refine .read fun s h ↦ ?_
  cases hopened : s.opened with
  | none => exact h
  | some block =>
    cases block with
    | text index => exact h
    | thinking block => exact h
    | toolUse block =>
      exact ((emitArguments_running block rfl _).post fun _ _ h ↦ .inr h) s (h.inTool hopened)

variable (item : Json)

theorem onSearchDone_live : Keeps (Live t) (fun _ ↦ Midway) (onSearchDone E item) := by
  refine Ensures.bind (ensureStarted_running E) fun _ ↦
    Ensures.bind (closeOpenBlock_closed E) fun _ ↦ ?_
  intro s hs
  obtain ⟨n, hs⟩ := hs
  refine (Ensures.bind (Stage.uuid E) fun fresh ↦ Stage.withIndex ?_) s hs
  refine Ensures.bind (Stage.emit between_ne_over read_start) fun _ ↦
    Ensures.bind (Stage.emit inside_ne_over (read_delta rfl)) fun _ ↦
    Ensures.bind (Stage.emit inside_ne_over read_stop) fun _ ↦ Stage.withIndex ?_
  refine Ensures.bind (Stage.emit between_ne_over read_start) fun _ ↦
    Ensures.bind (Stage.emit inside_ne_over read_stop) fun _ ↦ ?_
  refine Ensures.post (Keeps.when fun _ ↦ Stage.modify fun s ↦ ⟨rfl, rfl, rfl, rfl, rfl, rfl⟩)
    fun _ _ h ↦ ?_
  exact .inr ⟨none, n + 1 + 1, trivial, h⟩

theorem onCallDone_closed (block : ToolBlock) (item : Json) :
    Ensures (InTool t block (block.index + 1)) (onCallDone E block item) (fun _ ↦ Closed t)
      fun _ ↦ Midway := by
  unfold onCallDone
  split_ifs
  · exact Ensures.bind (Stage.emit inside_ne_over (read_delta rfl)) fun _ ↦
      Ensures.bind (setOpen_tool rfl rfl) fun _ ↦ closeOpenBlock_closed E
  · exact .bind (emitArguments_running block rfl _) fun _ ↦ closeOpenBlock_closed E

/-! ## Reasoning that is done -/

/-- No block has been announced that is open. -/
def Parked (t : Bool) (s : MessageStream) : Prop :=
  ∃ o n, (∀ n, placeOf n o = .between n) ∧ Stage t (.between n) o n s

theorem Closed.parked (h : Closed t s) : Parked t s :=
  let ⟨n, hn⟩ := h
  ⟨none, n, fun _ ↦ rfl, hn⟩

theorem Parked.live (h : Parked t s) : Live t s := by
  obtain ⟨o, n, ho, hstage⟩ := h
  refine .inr ⟨o, n, ?_, (ho n).symm ▸ hstage⟩
  rcases o with - | (index | block | block)
  · trivial
  · exact absurd (ho 0) Progress.noConfusion
  · trivial
  · exact absurd (ho 0) Progress.noConfusion

theorem emitRedacted_parked (data : JsString) :
    Keeps (Parked t) (fun _ ↦ Midway) (emitRedacted data) := by
  intro s hs
  obtain ⟨o, n, ho, hstage⟩ := hs
  have hcode : Ensures (Stage t (.between n) o n) (emitRedacted data)
      (fun _ ↦ Stage t (.between (n + 1)) o (n + 1)) fun _ ↦ Midway :=
    Stage.withIndex <| Ensures.bind (Stage.emit between_ne_over read_start) fun _ ↦
      Stage.emit inside_ne_over read_stop
  exact (hcode.post fun _ _ h ↦ ⟨o, n + 1, ho, h⟩) s hstage

theorem makeRoom_parked : Ensures (Live t) (do
      ensureStarted E
      let s ← get
      when (s.isThinking = false) (closeOpenBlock E)) (fun _ ↦ Parked t) fun _ ↦ Midway := by
  refine .bind (ensureStarted_running E) fun _ ↦ .read fun s h ↦ ?_
  by_cases hthinking : s.isThinking = false
  · rw [Act.when_pos hthinking]
    exact ((closeOpenBlock_closed E).post fun _ _ h ↦ h.parked) s h
  · rw [Act.when_neg hthinking]
    obtain ⟨o, n, -, hstage⟩ := h
    have ho : ∃ block, o = some (.thinking block) := by
      rw [MessageStream.isThinking, hstage.opened] at hthinking
      rcases o with - | (index | block | block)
      · exact absurd rfl hthinking
      · exact absurd rfl hthinking
      · exact ⟨block, rfl⟩
      · exact absurd rfl hthinking
    obtain ⟨block, rfl⟩ := ho
    exact ⟨some (.thinking block), n, fun _ ↦ rfl, hstage⟩

theorem emitRedactedBlocks_live (red : List JsString) :
    Keeps (Live t) (fun _ ↦ Midway) (emitRedactedBlocks E red) := by
  unfold emitRedactedBlocks
  by_cases hred : red = []
  · subst hred
    exact fun s h ↦ h
  · rw [Act.when_pos hred]
    refine Ensures.bind (makeRoom_parked E) fun _ ↦ ?_
    exact (Keeps.forM emitRedacted_parked red).post fun _ _ h ↦ h.live

theorem completeThinking_live (env : Option ReasoningEnvelope) (native : JsString)
    (block : ThinkingBlock) :
    Ensures (Stage t (.between n) (some (.thinking block)) n)
      (completeThinking E item env native block) (fun _ ↦ Live t) fun _ ↦ Midway := by
  refine .bind (Q := fun _ ↦ Stage t (.between n) (some (.thinking block)) n) ?_ fun _ ↦ ?_
  · refine Keeps.forSome fun m ↦ Ensures.bind
      (Stage.modify (g := fun s ↦ { s with progressMirrorId := some m.1 }) fun s ↦ ?_)
      fun _ ↦ Stage.ask between_ne_over
    exact ⟨rfl, rfl, rfl, rfl, rfl, rfl⟩
  · refine .bind (Q := fun _ ↦ Running t) ?_ fun _ ↦ ?_
    · exact (Stage.setOpen _).post fun _ _ h ↦ ⟨some (.thinking _), n, trivial, h⟩
    · exact (closeOpenBlock_closed E).post fun _ _ h ↦ .inr h.running

theorem showThinking_live (env : Option ReasoningEnvelope) (native : JsString) :
    Keeps (Live t) (fun _ ↦ Midway) (showThinking E item env native) := by
  refine Ensures.read fun s h ↦ (Ensures.bind (Keeps.when fun _ ↦ ?_) fun _ ↦ ?_) s h
  · exact (ensureThinking_running E).post fun _ _ h ↦ .inr h
  · refine .read fun s h ↦ ?_
    cases hopened : s.opened with
    | none => exact h
    | some block =>
      cases block with
      | text index => exact h
      | thinking block => exact completeThinking_live E item _ _ block s (h.inThinking hopened)
      | toolUse block => exact h

theorem onReasoningDone_live : Keeps (Live t) (fun _ ↦ Midway) (onReasoningDone E item) := by
  refine .bind (.when fun _ ↦ ask_live) fun _ ↦ .read fun s h ↦ ?_
  exact (Ensures.bind (closing_live E) fun _ ↦ Ensures.bind (emitRedactedBlocks_live E _) fun _ ↦
    showThinking_live E item _ _) s h

theorem onItemDone_live : Keeps (Live t) (fun _ ↦ Midway) (onItemDone E data) := by
  refine .forSome fun item ↦ .read fun s h ↦ ?_
  -- a block other than a tool's
  have hother : Act.Meets (fun _ ↦ Live t) (fun _ ↦ Midway)
      ((if s.isText = true ∧ Tools.stringAt item "type" = some (js "message") then closeOpenBlock E
        else if Tools.stringAt item "type" = some (js "reasoning") then onReasoningDone E item
        else pure ⟨⟩ : Code PUnit) s) := by
    split_ifs
    · exact ((closeOpenBlock_live E).post fun _ _ h ↦ h.imp_right Closed.running) s h
    · exact onReasoningDone_live E item s h
    · exact h
  by_cases hsearch : Tools.stringAt item "type" = some (js "web_search_call")
  · rw [if_pos hsearch]
    exact onSearchDone_live E item s h
  rw [if_neg hsearch]
  cases hopened : s.opened with
  | none => exact hother
  | some block =>
    cases block with
    | text index => exact hother
    | thinking block => exact hother
    | toolUse block =>
      dsimp only
      split_ifs
      · exact ((onCallDone_closed E block item).post fun _ _ h ↦ .inr h.running) s (h.inTool hopened)
      · exact onReasoningDone_live E item s h
      · exact h

/-! ## Terminals -/

/-- **The closing pair** leads to the end. -/
theorem finish_delivered (stopReason : JsString) (usage : Option Json) :
    Ensures (Live false) (finish E stopReason usage) (fun _ ↦ Delivered) fun _ ↦ Midway := by
  refine .read fun s h ↦ ?_
  rw [Act.when_pos h.terminated]
  have hend : Ensures (Closed true) (do
      let s ← get
      emit (.messageDelta stopReason (anthropicUsage usage s.webSearchRequests))
      emit .messageStop
      modify fun s : MessageStream ↦ { s with terminalDelivered := true })
      (fun _ ↦ Delivered) fun _ ↦ Midway := by
    refine .read fun s h ↦ ?_
    obtain ⟨n, hstage⟩ := h
    refine (Ensures.bind (Stage.emit between_ne_over rfl) fun _ ↦
      Ensures.bind (Stage.emit Progress.noConfusion rfl) fun _ ↦ Ensures.modify fun s h ↦ ?_) s hstage
    exact ⟨h.read, h.terminated, rfl⟩
  refine (Ensures.bind (Q := fun _ ↦ Live true) (Ensures.modify fun s h ↦ ?_) fun _ ↦
    Ensures.bind (ensureStarted_running E) fun _ ↦
    Ensures.bind (closeOpenBlock_closed E) fun _ ↦ hend) s h
  rcases h with h | ⟨o, n, hnew, h⟩
  · exact .inl ⟨h.read, h.opened, h.index, h.started, rfl, h.delivered⟩
  · exact .inr ⟨o, n, hnew, h.read, h.opened, h.index, h.started, rfl, h.delivered⟩

/-- An error may be written. -/
structure Failing (s : MessageStream) : Prop where
  read : ∃ p, Progress.fresh.readAll false s.written = some p ∧
    ∀ body, p.read false (.error body) = some .over
  terminated : s.terminated = true
  delivered : s.terminalDelivered = false

theorem Unstarted.failing (h : Unstarted true s) : Failing s :=
  ⟨⟨.fresh, h.read, fun _ ↦ rfl⟩, h.terminated, h.delivered⟩

theorem Closed.failing (h : Closed true s) : Failing s :=
  let ⟨n, hn⟩ := h
  ⟨⟨.between n, hn.read, fun _ ↦ rfl⟩, hn.terminated, hn.delivered⟩

theorem Failing.midway (h : Failing s) : Midway s := by
  obtain ⟨p, hread, herror⟩ := h.read
  refine ⟨⟨p, hread, ?_⟩, h.delivered⟩
  rintro rfl
  exact absurd (herror .null) (by simp [Progress.read])

theorem emitError_delivered (body : Json) : Ensures Failing (do
      emit (.error body)
      modify fun s : MessageStream ↦ { s with terminalDelivered := true })
      (fun _ ↦ Delivered) fun _ ↦ Midway := by
  have hask : Keeps Failing (fun _ ↦ Midway) ask :=
    ask_ensures (fun _ _ h ↦ ⟨h.read, h.terminated, h.delivered⟩) fun _ h ↦ h.midway
  refine .bind (Q := fun _ s ↦ Progress.fresh.readAll false s.written = some .over ∧
    s.terminated = true) (.bind hask fun _ ↦ .modify fun s h ↦ ?_) fun _ ↦ .modify fun s h ↦ ?_
  · obtain ⟨p, hread, herror⟩ := h.read
    exact ⟨(readAll_concat hread _).trans (herror body), h.terminated⟩
  · exact ⟨h.1, h.2, rfl⟩

theorem fail_delivered (status : ℚ) (message : JsString) (upstreamDerived : Bool)
    (code : Option JsString) :
    Ensures (Live false) (fail E status message upstreamDerived code) (fun _ ↦ Delivered)
      fun _ ↦ Midway := by
  refine .read fun s h ↦ ?_
  rw [Act.when_pos h.terminated]
  rcases h with h | h
  · rw [Act.when_neg (by rw [h.started]; exact Bool.noConfusion)]
    refine (Ensures.bind (Q := fun _ ↦ Unstarted true) (Ensures.modify fun s h ↦ ?_) fun _ ↦
      Ensures.mono (emitError_delivered _) (fun _ h ↦ h.failing) (fun _ _ h ↦ h) fun _ _ h ↦ h) s h
    exact ⟨h.read, h.opened, h.index, h.started, rfl, h.delivered⟩
  · have hstarted : s.started = true :=
      let ⟨_, _, _, hstage⟩ := h
      hstage.started
    rw [Act.when_pos hstarted]
    refine (Ensures.bind (Q := fun _ ↦ Running true) (Ensures.modify fun s h ↦ ?_) fun _ ↦
      Ensures.bind (closeOpenBlock_closed E) fun _ ↦
      Ensures.mono (emitError_delivered _) (fun _ h ↦ h.failing) (fun _ _ h ↦ h) fun _ _ h ↦ h) s h
    obtain ⟨o, n, hnew, h⟩ := h
    exact ⟨o, n, hnew, h.read, h.opened, h.index, h.started, rfl, h.delivered⟩

theorem onCompleted_delivered :
    Ensures (Live false) (onCompleted E data) (fun _ ↦ Delivered) fun _ ↦ Midway := by
  refine .reading fun s _ ↦ ?_
  split
  · exact fail_delivered E _ _ _ _
  · exact finish_delivered E _ _

theorem onIncomplete_delivered :
    Ensures (Live false) (onIncomplete E data) (fun _ ↦ Delivered) fun _ ↦ Midway := by
  unfold onIncomplete
  dsimp only
  split
  · exact finish_delivered E _ _
  · exact fail_delivered E _ _ _ _

theorem onFailed_delivered :
    Ensures (Live false) (onFailed E data) (fun _ ↦ Delivered) fun _ ↦ Midway := by
  unfold onFailed
  refine .ite (fun _ ↦ ?_) fun _ ↦ ?_
  · exact .throw fun _ h ↦ h.midway
  · exact fail_delivered E _ _ _ _

/-! ## Frames -/

theorem handleFrame_sound (room : Bool) (eventName : JsString) (data : Json) :
    Ensures (Live false) (handleFrame E room eventName data) (fun _ ↦ Sound) fun _ ↦ Midway := by
  have hsound : ∀ (a : PUnit) (s : MessageStream), Live false s → Sound s := fun _ _ h ↦ .inl h
  have hdone : ∀ (a : PUnit) (s : MessageStream), Delivered s → Sound s := fun _ _ h ↦ .inr h
  refine .read fun s h ↦ ?_
  refine Ensures.ite (P := Live false) (fun _ ↦ ?_) (fun _ ↦ ?_) s h
  · refine Ensures.post (Keeps.when fun _ ↦ ?_) hsound
    exact Live.modify (g := fun s ↦ { s with progressMirrorId := none })
      fun s ↦ ⟨rfl, rfl, rfl, rfl, rfl, rfl⟩
  · refine .ite (fun _ ↦ ?_) fun _ ↦ ?_
    · exact (onLifecycle_live data).post hsound
    refine .ite (fun _ ↦ ?_) fun _ ↦ ?_
    · exact Ensures.post (Keeps.when fun _ ↦ ping_live) hsound
    refine .ite (fun _ ↦ ?_) fun _ ↦ ?_
    · exact (onTextDelta_live E data).post hsound
    refine .ite (fun _ ↦ ?_) fun _ ↦ ?_
    · exact (onReasoningDelta_live E true data).post hsound
    refine .ite (fun _ ↦ ?_) fun _ ↦ ?_
    · exact (onReasoningDelta_live E false data).post hsound
    refine .ite (fun _ ↦ ?_) fun _ ↦ ?_
    · exact (onItemAdded_live E data).post hsound
    refine .ite (fun _ ↦ ?_) fun _ ↦ ?_
    · exact (onArgumentsDelta_live data).post hsound
    refine .ite (fun _ ↦ ?_) fun _ ↦ ?_
    · exact (onArgumentsDone_live data).post hsound
    refine .ite (fun _ ↦ ?_) fun _ ↦ ?_
    · exact (onItemDone_live E data).post hsound
    refine .ite (fun _ ↦ ?_) fun _ ↦ ?_
    · exact (onCompleted_delivered E data).post hdone
    refine .ite (fun _ ↦ ?_) fun _ ↦ ?_
    · exact (onIncomplete_delivered E data).post hdone
    refine .ite (fun _ ↦ ?_) fun _ ↦ ?_
    · exact (onFailed_delivered E data).post hdone
    · exact .pure fun _ h ↦ .inl h

end Messages
