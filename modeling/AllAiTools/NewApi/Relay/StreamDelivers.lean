import AllAiTools.Foundation.Run
import AllAiTools.NewApi.Relay.StreamScanner

namespace AllAiTools.NewApi.Relay.StreamDelivers

open Foundation.Run StreamScanner
open ChatViaResponses (Text trimSpace)
open OllamaStream (byteSize)

section Spec

/-- The payloads of lines up to the first end marker. -/
def payloads : List Text → List Text
  | [] => []
  | line :: lines =>
    match cut line with
    | .skipped => payloads lines
    | .payload data => data :: payloads lines
    | .done => []

/-- Lines have an end marker. -/
def marked (lines : List Text) : Bool := lines.any fun line ↦ cut line = .done

variable (dataHandler : DataHandler)

/-- The handler goes on after each of the chunks it is given after others. -/
def GoesOn : List Text → List Text → Prop
  | _, [] => True
  | before, data :: rest => (dataHandler before data).verdict = .next ∧ GoesOn (before ++ [data]) rest

/-- The chunks up to the first that the handler stops at. -/
def upToStop : List Text → List Text → List Text
  | _, [] => []
  | before, data :: rest =>
    data :: if (dataHandler before data).verdict = .next then upToStop (before ++ [data]) rest else []

/-- The handler stopped at the last of the chunks. -/
def StopsAt (verdict : Verdict) (delivered : List Text) : Prop :=
  ∃ before data, delivered = before ++ [data] ∧ GoesOn dataHandler [] before ∧
    (dataHandler before data).verdict = verdict ∧ verdict ≠ .next

end Spec

section Chunks

variable {dataHandler : DataHandler}

theorem goesOn_append {before first rest : List Text} :
    GoesOn dataHandler before (first ++ rest) ↔
      GoesOn dataHandler before first ∧ GoesOn dataHandler (before ++ first) rest := by
  induction first generalizing before with
  | nil => rw [List.nil_append, List.append_nil, GoesOn, true_and]
  | cons data first ih => rw [List.cons_append, GoesOn, GoesOn, ih, List.append_assoc, and_assoc]; rfl

theorem goesOn_concat {before : List Text} {data : Text} :
    GoesOn dataHandler [] (before ++ [data]) ↔
      GoesOn dataHandler [] before ∧ (dataHandler before data).verdict = .next := by
  rw [goesOn_append, List.nil_append, GoesOn, GoesOn, and_true]

theorem upToStop_append {before first : List Text} (h : GoesOn dataHandler before first) (rest : List Text) :
    upToStop dataHandler before (first ++ rest) = first ++ upToStop dataHandler (before ++ first) rest := by
  induction first generalizing before with
  | nil => rw [List.nil_append, List.nil_append, List.append_nil]
  | cons data first ih =>
    rw [List.cons_append, upToStop, if_pos h.1, ih h.2, List.append_assoc]
    rfl

theorem upToStop_prefix (before all : List Text) : upToStop dataHandler before all <+: all := by
  induction all generalizing before with
  | nil => exact List.nil_prefix
  | cons data all ih =>
    rw [upToStop]
    split
    · exact List.cons_prefix_cons.mpr ⟨rfl, ih (before ++ [data])⟩
    · exact List.cons_prefix_cons.mpr ⟨rfl, List.nil_prefix⟩

theorem upToStop_of_stopsAt {verdict : Verdict} {delivered rest : List Text}
    (h : StopsAt dataHandler verdict delivered) : upToStop dataHandler []
    (delivered ++ rest) = delivered := by
  obtain ⟨before, data, rfl, hbefore, hverdict, hne⟩ := h
  rw [List.append_assoc, upToStop_append hbefore, List.nil_append, List.singleton_append, upToStop,
    if_neg (hverdict ▸ hne)]

theorem prefix_upToStop {delivered all : List Text} (hall : delivered <+: all)
    (h : ∀ before data, delivered = before ++ [data] → GoesOn dataHandler [] before) :
    delivered <+: upToStop dataHandler [] all := by
  obtain ⟨rest, rfl⟩ := hall
  induction delivered using List.reverseRecOn with
  | nil => exact List.nil_prefix
  | append_singleton before data _ =>
    have hbefore := h before data rfl
    rw [List.append_assoc, upToStop_append hbefore, List.nil_append, List.singleton_append, upToStop]
    refine List.prefix_append_right_inj before |>.mpr ?_
    exact List.cons_prefix_cons.mpr ⟨rfl, List.nil_prefix⟩

end Chunks

section Safety

variable {stream : Stream} {all : List Text}

/-- What holds of every state, however the stream is disturbed: chunks are handed on in order, and the
handler gets nothing after it has stopped. -/
structure Inv (stream : Stream) (all : List Text) (s : State) : Prop where
  scanning : s.scanner = .scanning → s.delivered ++ s.dataChan ++ payloads s.lines = all
  sending : ∀ data, s.scanner = .sending data → s.delivered ++ s.dataChan ++ data :: payloads s.lines = all
  handed : s.delivered ++ s.dataChan <+: all
  receiving : s.handler = .receiving → GoesOn stream.dataHandler [] s.delivered
  before : ∀ before data, s.delivered = before ++ [data] → GoesOn stream.dataHandler [] before

/-- A step that neither reads nor hands on anything. -/
theorem Inv.frame {s s' : State} (h : Inv stream all s) (hlines : s'.lines = s.lines)
    (hscanner : s'.scanner = s.scanner) (hchan : s'.dataChan = s.dataChan) (hhandler : s'.handler = s.handler)
    (hdelivered : s'.delivered = s.delivered) : Inv stream all s' where
  scanning hs := by
    rw [hdelivered, hchan, hlines]
    exact h.scanning (hscanner ▸ hs)
  sending data hs := by
    rw [hdelivered, hchan, hlines]
    exact h.sending data (hscanner ▸ hs)
  handed := by
    rw [hdelivered, hchan]
    exact h.handed
  receiving hr := by
    rw [hdelivered]
    exact h.receiving (hhandler ▸ hr)
  before b d hd := h.before b d (hdelivered ▸ hd)

/-- The scanner stops reading. -/
theorem Inv.leave {s s' : State} (h : Inv stream all s) (hscanning : s'.scanner ≠ .scanning)
    (hsending : ∀ data, s'.scanner ≠ .sending data) (hchan : s'.dataChan = s.dataChan)
    (hhandler : s'.handler = s.handler) (hdelivered : s'.delivered = s.delivered) : Inv stream all s' where
  scanning hs := absurd hs hscanning
  sending data hs := absurd hs (hsending data)
  handed := by
    rw [hdelivered, hchan]
    exact h.handed
  receiving hr := by
    rw [hdelivered]
    exact h.receiving (hhandler ▸ hr)
  before b d hd := h.before b d (hdelivered ▸ hd)

theorem Inv.scan {s : State} (h : Inv stream all s) (hs : s.scanner = .scanning) {line : Text}
    {lines : List Text} (hlines : s.lines = line :: lines) : Inv stream all (s.scanned line lines) := by
  have hall := h.scanning hs
  rw [hlines, payloads] at hall
  rw [State.scanned]
  cases hcut : cut line with
  | skipped =>
    rw [hcut] at hall
    exact ⟨fun _ ↦ hall, fun data hd ↦ absurd (hs.symm.trans hd) (by simp), h.handed, h.receiving, h.before⟩
  | payload data =>
    rw [hcut] at hall
    refine ⟨fun hd ↦ absurd hd (by simp), ?_, h.handed, h.receiving, h.before⟩
    intro data' hd
    obtain rfl := ScannerAt.sending.inj hd
    exact hall
  | done => exact h.leave (by simp) (by simp) rfl rfl rfl

theorem Inv.handle {s : State} (h : Inv stream all s) (hr : s.handler = .receiving) {data : Text}
    {rest : List Text} (hchan : s.dataChan = data :: rest) {s' : State} (hscanner : s'.scanner = s.scanner)
    (hlines : s'.lines = s.lines) (hrest : s'.dataChan = rest)
    (hdelivered : s'.delivered = s.delivered ++ [data])
    (hhandler : s'.handler = .receiving → (stream.dataHandler s.delivered data).verdict = .next) :
    Inv stream all s' := by
  have hsplit : s'.delivered ++ s'.dataChan = s.delivered ++ s.dataChan := by
    rw [hdelivered, hrest, hchan, List.append_assoc]
    rfl
  refine ⟨?_, ?_, ?_, ?_, ?_⟩
  · intro hs
    rw [hsplit, hlines]
    exact h.scanning (hscanner ▸ hs)
  · intro data' hs
    rw [hsplit, hlines]
    exact h.sending data' (hscanner ▸ hs)
  · rw [hsplit]
    exact h.handed
  · intro hr'
    rw [hdelivered, goesOn_concat]
    exact ⟨h.receiving hr, hhandler hr'⟩
  · intro before data' heq
    rw [hdelivered] at heq
    obtain ⟨rfl, -⟩ := List.append_inj' heq rfl
    exact h.receiving hr

theorem inv_start (lines : List Text) (pingEnabled : Bool) :
    Inv stream (payloads lines) (start lines pingEnabled) where
  scanning _ := rfl
  sending data hd := by cases hd
  handed := List.nil_prefix
  receiving _ := trivial
  before b d hd := absurd hd.symm (List.append_ne_nil_of_right_ne_nil b (List.cons_ne_nil d []))

theorem exists_of_isSending {s : State} (h : s.isSending = true) : ∃ data, s.scanner = .sending data := by
  rw [State.isSending] at h
  split at h
  · next data heq => exact ⟨data, heq⟩
  · cases h

theorem inv_effect (s : State) (event : Event) (h : Inv stream all s) (henabled : Enabled s event) :
    Inv stream all (effect stream s event) := by
  cases event with
  | scan =>
    obtain ⟨hs, hlines, -⟩ := henabled
    obtain ⟨line, lines, heq⟩ := List.exists_cons_of_ne_nil hlines
    rw [effect, heq]
    exact h.scan hs heq
  | scanStopped => exact h.leave (by simp [effect]) (by simp [effect]) rfl rfl rfl
  | scanCancelled => exact h.leave (by simp [effect]) (by simp [effect]) rfl rfl rfl
  | scanClientGone => exact h.leave (by simp [effect]) (by simp [effect]) rfl rfl rfl
  | scanEnd =>
    rw [effect]
    cases stream.scannerErr with
    | true => exact h.leave (by simp) (by simp) rfl rfl rfl
    | false => exact h.leave (by simp) (by simp) rfl rfl rfl
  | scanBroken => exact h.leave (by simp [effect]) (by simp [effect]) rfl rfl rfl
  | send =>
    obtain ⟨data, hs⟩ := exists_of_isSending henabled.1
    have hall := h.sending data hs
    rw [effect, hs]
    have hsplit : s.delivered ++ (s.dataChan ++ [data]) ++ payloads s.lines = all := by
      rw [← hall, List.append_assoc, List.append_assoc, List.append_assoc]
      rfl
    exact ⟨fun _ ↦ hsplit, fun data' hd ↦ absurd hd (by simp), ⟨_, hsplit⟩, h.receiving, h.before⟩
  | sendStopped => exact h.leave (by simp [effect]) (by simp [effect]) rfl rfl rfl
  | sendCancelled => exact h.leave (by simp [effect]) (by simp [effect]) rfl rfl rfl
  | close => exact h.leave (by simp [effect]) (by simp [effect]) rfl rfl rfl
  | scannerSignal => exact h.leave (by simp [effect]) (by simp [effect]) rfl rfl rfl
  | handle =>
    obtain ⟨data, rest, heq⟩ := List.exists_cons_of_ne_nil henabled.2
    rw [effect, heq]
    refine h.handle henabled.1 heq rfl rfl rfl rfl ?_
    intro hr
    by_contra hne
    simp only [State.handled, if_neg hne] at hr
    cases hr
  | drained => exact ⟨h.scanning, h.sending, h.handed, fun hr ↦ absurd hr (by simp [effect]), h.before⟩
  | handlerPanic =>
    obtain ⟨data, rest, heq⟩ := List.exists_cons_of_ne_nil henabled.2
    rw [effect, heq]
    refine h.handle henabled.1 heq rfl rfl rfl rfl ?_
    intro hr
    cases hr
  | handlerSignal => exact ⟨h.scanning, h.sending, h.handed, fun hr ↦ absurd hr (by simp [effect]), h.before⟩
  | ping => exact h
  | pingFail => exact h.frame rfl rfl rfl rfl rfl
  | pingStopped => exact h.frame rfl rfl rfl rfl rfl
  | pingCancelled => exact h.frame rfl rfl rfl rfl rfl
  | pingClientGone => exact h.frame rfl rfl rfl rfl rfl
  | pingExpired => exact h.frame rfl rfl rfl rfl rfl
  | mainStopped => exact h.frame rfl rfl rfl rfl rfl
  | timeout => exact h.frame rfl rfl rfl rfl rfl
  | mainClientGone => exact h.frame rfl rfl rfl rfl rfl
  | notify => exact h.frame rfl rfl rfl rfl rfl
  | join => exact h.frame rfl rfl rfl rfl rfl
  | joinTimeout => exact h.frame rfl rfl rfl rfl rfl
  | clientLeaves => exact h.frame rfl rfl rfl rfl rfl

/-- Whatever happens to a stream, the handler is given the payloads of its lines in order, none twice and
none after one that it stopped at. -/
theorem delivered_prefix (stream : Stream) (lines : List Text) (pingEnabled : Bool) (trace : List Event)
    (h : Along (effect stream) Enabled (start lines pingEnabled) trace) :
    (run (effect stream) (start lines pingEnabled) trace).delivered <+:
      upToStop stream.dataHandler [] (payloads lines) := by
  have hinv := h.invariant (Inv stream (payloads lines)) inv_effect (inv_start lines pingEnabled)
  exact prefix_upToStop ((List.prefix_append _ _).trans hinv.handed) hinv.before

theorem delivered_prefix_of_leaving :
    (run (effect ⟨fun _ _ ↦ {}, false⟩) (start ["data: a".toList, "data: b".toList] false)
        [.scan, .send, .clientLeaves, .handle, .mainClientGone]).delivered <+:
      upToStop (fun _ _ ↦ {}) [] (payloads ["data: a".toList, "data: b".toList]) :=
  delivered_prefix ⟨fun _ _ ↦ {}, false⟩ _ _ _
    ⟨by decide, by decide, by decide, by decide, by decide, trivial⟩

end Safety

section Calm

variable {stream : Stream} {all : List Text}

/-- A step without a timeout, a panic, a client that leaves or a broken body. -/
def calm : Event → Bool
  | .scanClientGone | .scanBroken | .handlerPanic | .pingClientGone | .pingExpired | .timeout
  | .mainClientGone | .joinTimeout | .clientLeaves => false
  | _ => true

def Left (s : State) : Prop := s.scanner = .signalling ∨ s.scanner = .gone

def Stopped (stream : Stream) (delivered : List Text) : Prop :=
  ∃ verdict, StopsAt stream.dataHandler verdict delivered

/-- What holds as long as a stream is calm: a goroutine is told to stop only when the scanner or the
handler is gone, and the scanner leaves chunks unread only for a handler that has stopped. -/
structure Quiet (stream : Stream) (all : List Text) (s : State) : Prop where
  inv : Inv stream all s
  told : s.Stopping ∨ s.cancelled = true ∨ s.main ≠ .waiting → s.handler = .gone ∨ s.scanner = .gone
  finished : s.scanner ≠ .scanning → s.isSending = false →
    s.delivered ++ s.dataChan = all ∨ Stopped stream s.delivered
  left : s.handler ≠ .receiving → Stopped stream s.delivered ∨ s.dataChan = [] ∧ Left s
  returned : s.main = .returned → Left s ∧ s.handler ≠ .receiving
  present : s.clientGone = false

theorem not_left_of_scanning {s : State} (h : s.scanner = .scanning) : ¬ Left s := by
  rw [Left, h]
  simp

theorem not_left_of_isSending {s : State} (h : s.isSending = true) : ¬ Left s := by
  obtain ⟨data, hs⟩ := exists_of_isSending h
  rw [Left, hs]
  simp

/-- A handler that still receives has not stopped. -/
theorem Inv.not_stopped {s : State} (h : Inv stream all s) (hr : s.handler = .receiving) :
    ¬ Stopped stream s.delivered := by
  intro ⟨verdict, before, data, heq, _, hverdict, hne⟩
  have hgoes := h.receiving hr
  rw [heq, goesOn_concat] at hgoes
  exact hne (hverdict.symm.trans hgoes.2)

/-- A scanner that is told to stop while it reads is told so by the handler. -/
theorem Quiet.stopped {s : State} (h : Quiet stream all s) (hleft : ¬ Left s)
    (htold : s.Stopping ∨ s.cancelled = true) : Stopped stream s.delivered := by
  have hgone : s.handler = .gone := by
    obtain hhandler | hscanner := h.told (htold.imp_right .inl)
    · exact hhandler
    · exact absurd (.inr hscanner) hleft
  have hne : s.handler ≠ .receiving := by
    rw [hgone]
    simp
  exact (h.left hne).resolve_right fun hor ↦ hleft hor.2

/-- The scanner stops reading, with all chunks handed on or for a handler that has stopped. -/
theorem Quiet.leave {s s' : State} (h : Quiet stream all s) (hleft : ¬ Left s) (hinv : Inv stream all s')
    (hall : s.delivered ++ s.dataChan = all ∨ Stopped stream s.delivered)
    (hchan : s'.dataChan = s.dataChan) (hhandler : s'.handler = s.handler)
    (hdelivered : s'.delivered = s.delivered)
    (hmain : s'.main = s.main) (hcancelled : s'.cancelled = s.cancelled)
    (hclosed : s'.stopClosed = s.stopClosed)
    (hstops : s'.stops ≤ s.stops) (hclient : s'.clientGone = s.clientGone) : Quiet stream all s' where
  inv := hinv
  told htold := by
    have hbefore : s.Stopping ∨ s.cancelled = true ∨ s.main ≠ .waiting := by
      obtain hstopping | hrest := htold
      · left
        rw [State.Stopping, hclosed] at hstopping
        exact hstopping.imp_left fun hpos ↦ Nat.lt_of_lt_of_le hpos hstops
      · right
        rw [hcancelled, hmain] at hrest
        exact hrest
    obtain hgone | hgone := h.told hbefore
    · exact .inl (hhandler.trans hgone)
    · exact absurd (.inr hgone) hleft
  finished _ _ := by
    rw [hdelivered, hchan]
    exact hall
  left hne := by
    rw [hhandler] at hne
    rw [hdelivered]
    exact .inl ((h.left hne).resolve_right fun hor ↦ hleft hor.2)
  returned hmain' := absurd (h.returned (hmain ▸ hmain')).1 hleft
  present := hclient.trans h.present

/-- The scanner goes on reading. -/
theorem Quiet.move {s s' : State} (h : Quiet stream all s) (hleft : ¬ Left s) (hinv : Inv stream all s')
    (hreads : s'.scanner = .scanning ∨ s'.isSending = true) (hhandler : s'.handler = s.handler)
    (hdelivered : s'.delivered = s.delivered) (hmain : s'.main = s.main)
    (hcancelled : s'.cancelled = s.cancelled)
    (hclosed : s'.stopClosed = s.stopClosed) (hstops : s'.stops = s.stops)
    (hclient : s'.clientGone = s.clientGone) : Quiet stream all s' where
  inv := hinv
  told htold := by
    rw [State.Stopping, hclosed, hstops, hcancelled, hmain] at htold
    obtain hgone | hgone := h.told htold
    · exact .inl (hhandler.trans hgone)
    · exact absurd (.inr hgone) hleft
  finished hscanning hsending := by
    obtain hs | hs := hreads
    · exact absurd hs hscanning
    · exact absurd (hsending.symm.trans hs) Bool.false_ne_true
  left hne := by
    rw [hhandler] at hne
    rw [hdelivered]
    exact .inl ((h.left hne).resolve_right fun hor ↦ hleft hor.2)
  returned hmain' := absurd (h.returned (hmain ▸ hmain')).1 hleft
  present := hclient.trans h.present

theorem quiet_start (lines : List Text) (pingEnabled : Bool) :
    Quiet stream (payloads lines) (start lines pingEnabled) where
  inv := inv_start lines pingEnabled
  told htold := by
    obtain (hpos | hclosed) | hcancelled | hmain := htold
    · exact absurd hpos (Nat.lt_irrefl 0)
    · cases hclosed
    · cases hcancelled
    · exact absurd rfl hmain
  finished hs := absurd rfl hs
  left hr := absurd rfl hr
  returned hm := by cases hm
  present := rfl

theorem quiet_effect (s : State) (event : Event) (h : Quiet stream all s)
    (henabled : Enabled s event ∧ calm event = true) : Quiet stream all (effect stream s event) := by
  obtain ⟨henabled, hcalm⟩ := henabled
  have hinv := inv_effect s event h.inv henabled
  cases event with
  | scan =>
    obtain ⟨hs, hlines, hstop, hcancelled, -⟩ := henabled
    obtain ⟨line, lines, heq⟩ := List.exists_cons_of_ne_nil hlines
    have hall := h.inv.scanning hs
    rw [effect, heq] at hinv ⊢
    rw [heq, payloads] at hall
    have hleft := not_left_of_scanning hs
    dsimp only at hinv ⊢
    rw [State.scanned] at hinv ⊢
    cases hcut : cut line with
    | skipped =>
      rw [hcut] at hinv
      exact ⟨hinv, h.told, h.finished, h.left, h.returned, h.present⟩
    | payload data =>
      rw [hcut] at hinv
      exact h.move hleft hinv (.inr rfl) rfl rfl rfl rfl rfl rfl rfl
    | done =>
      rw [hcut] at hinv hall
      rw [List.append_nil] at hall
      exact h.leave hleft hinv (.inl hall) rfl rfl rfl rfl rfl rfl (Nat.le_refl _) rfl
  | scanStopped =>
    have hleft := not_left_of_scanning henabled.1
    exact h.leave hleft hinv (.inr (h.stopped hleft (.inl henabled.2.2))) rfl rfl rfl rfl rfl rfl
      (Nat.sub_le _ _) rfl
  | scanCancelled =>
    have hleft := not_left_of_scanning henabled.1
    exact h.leave hleft hinv (.inr (h.stopped hleft (.inr henabled.2.2))) rfl rfl rfl rfl rfl rfl
      (Nat.le_refl _) rfl
  | scanClientGone => cases hcalm
  | scanEnd =>
    have hleft := not_left_of_scanning henabled.1
    have hall := h.inv.scanning henabled.1
    rw [henabled.2, payloads, List.append_nil] at hall
    rw [effect] at hinv ⊢
    cases hscannerErr : stream.scannerErr with
    | true =>
      rw [hscannerErr] at hinv
      exact h.leave hleft hinv (.inl hall) rfl rfl rfl rfl rfl rfl (Nat.le_refl _) rfl
    | false =>
      rw [hscannerErr] at hinv
      exact h.leave hleft hinv (.inl hall) rfl rfl rfl rfl rfl rfl (Nat.le_refl _) rfl
  | scanBroken => cases hcalm
  | send =>
    obtain ⟨data, hs⟩ := exists_of_isSending henabled.1
    rw [effect, hs] at hinv ⊢
    exact h.move (not_left_of_isSending henabled.1) hinv (.inl rfl) rfl rfl rfl rfl rfl rfl rfl
  | sendStopped =>
    have hleft := not_left_of_isSending henabled.1
    exact h.leave hleft hinv (.inr (h.stopped hleft (.inl henabled.2))) rfl rfl rfl rfl rfl rfl
      (Nat.sub_le _ _) rfl
  | sendCancelled =>
    have hleft := not_left_of_isSending henabled.1
    exact h.leave hleft hinv (.inr (h.stopped hleft (.inr henabled.2))) rfl rfl rfl rfl rfl rfl
      (Nat.le_refl _) rfl
  | close =>
    have hclosing : s.scanner = .closing := henabled
    have hleft : ¬ Left s := by
      rw [Left, hclosing]
      simp
    refine ⟨hinv, ?_, ?_, ?_, ?_, h.present⟩
    · intro htold
      exact .inl ((h.told htold).resolve_right fun hgone ↦ hleft (.inr hgone))
    · exact fun _ _ ↦ h.finished (by simp [hclosing]) (by simp [State.isSending, hclosing])
    · exact fun hne ↦ .inl ((h.left hne).resolve_right fun hor ↦ hleft hor.2)
    · exact fun hmain ↦ absurd (h.returned hmain).1 hleft
  | scannerSignal =>
    refine ⟨hinv, fun _ ↦ .inr rfl, ?_, ?_, ?_, h.present⟩
    · exact fun _ _ ↦ h.finished (by simp [henabled.1]) (by simp [State.isSending, henabled.1])
    · exact fun hne ↦ (h.left hne).imp_right fun hor ↦ ⟨hor.1, .inr rfl⟩
    · exact fun hmain ↦ ⟨.inr rfl, (h.returned hmain).2⟩
  | handle =>
    obtain ⟨data, rest, heq⟩ := List.exists_cons_of_ne_nil henabled.2
    have hreceiving : s.handler ≠ .gone := by
      rw [henabled.1]
      simp
    have hstopped := h.inv.not_stopped henabled.1
    rw [effect, heq] at hinv ⊢
    dsimp only at hinv ⊢
    refine ⟨hinv, ?_, ?_, ?_, ?_, h.present⟩
    · exact fun htold ↦ .inr ((h.told htold).resolve_left hreceiving)
    · intro hscanning hsending
      have hall := (h.finished hscanning hsending).resolve_right hstopped
      rw [heq] at hall
      left
      rw [← hall, State.handled, List.append_assoc]
      rfl
    · intro hne
      have hverdict : (stream.dataHandler s.delivered data).verdict ≠ .next := by
        intro hnext
        exact hne (by simp only [State.handled, if_pos hnext])
      exact .inl ⟨_, s.delivered, data, rfl, h.inv.receiving henabled.1, rfl, hverdict⟩
    · exact fun hmain ↦ absurd henabled.1 (h.returned hmain).2
  | drained =>
    have hreceiving : s.handler ≠ .gone := by
      rw [henabled.1]
      simp
    refine ⟨hinv, ?_, h.finished, ?_, ?_, h.present⟩
    · exact fun htold ↦ .inr ((h.told htold).resolve_left hreceiving)
    · exact fun _ ↦ .inr henabled.2
    · exact fun hmain ↦ absurd henabled.1 (h.returned hmain).2
  | handlerPanic => cases hcalm
  | handlerSignal =>
    have hne : s.handler ≠ .receiving := by
      rw [henabled.1]
      simp
    exact ⟨hinv, fun _ ↦ .inl rfl, h.finished, fun _ ↦ h.left hne,
      fun hmain ↦ ⟨(h.returned hmain).1, by simp [effect]⟩, h.present⟩
  | ping => exact h
  | pingFail => exact ⟨hinv, h.told, h.finished, h.left, h.returned, h.present⟩
  | pingStopped =>
    refine ⟨hinv, ?_, h.finished, h.left, h.returned, h.present⟩
    exact fun htold ↦ h.told (htold.imp_left fun hstopping ↦ hstopping.imp_left fun hpos ↦
      Nat.lt_of_lt_of_le hpos (Nat.sub_le _ _))
  | pingCancelled => exact ⟨hinv, h.told, h.finished, h.left, h.returned, h.present⟩
  | pingClientGone => cases hcalm
  | pingExpired => cases hcalm
  | mainStopped =>
    exact ⟨hinv, fun _ ↦ h.told (.inl henabled.2), h.finished, h.left,
      fun hmain ↦ absurd hmain (by simp [effect]), h.present⟩
  | timeout => cases hcalm
  | mainClientGone => cases hcalm
  | notify =>
    have hmain : s.main ≠ .waiting := by
      rw [henabled.1]
      simp
    exact ⟨hinv, fun _ ↦ h.told (.inr (.inr hmain)), h.finished, h.left,
      fun hmain' ↦ absurd hmain' (by simp [effect]), h.present⟩
  | join =>
    have hmain : s.main ≠ .waiting := by
      rw [henabled.1]
      simp
    exact ⟨hinv, fun _ ↦ h.told (.inr (.inr hmain)), h.finished, h.left,
      fun _ ↦ ⟨henabled.2.1, henabled.2.2.1⟩, h.present⟩
  | joinTimeout => cases hcalm
  | clientLeaves => cases hcalm

/-- A handler that is through has been given all payloads up to the one it stopped at. -/
theorem Quiet.delivered_eq {s : State} (h : Quiet stream all s) (hne : s.handler ≠ .receiving) :
    s.delivered = upToStop stream.dataHandler [] all := by
  obtain ⟨rest, hrest⟩ := (List.prefix_append s.delivered s.dataChan).trans h.inv.handed
  obtain ⟨verdict, hstops⟩ | ⟨hchan, hleft⟩ := h.left hne
  · rw [← hrest]
    exact (upToStop_of_stopsAt hstops).symm
  · have hscanning : s.scanner ≠ .scanning := fun hs ↦ not_left_of_scanning hs hleft
    have hsending : s.isSending = false := by
      by_contra hs
      exact not_left_of_isSending (Bool.not_eq_false _ ▸ hs) hleft
    obtain hall | ⟨verdict, hstops⟩ := h.finished hscanning hsending
    · rw [hchan, List.append_nil] at hall
      have hle : upToStop stream.dataHandler [] all <+: s.delivered := by
        rw [hall]
        exact upToStop_prefix [] all
      have hge := prefix_upToStop ((List.prefix_append s.delivered s.dataChan).trans h.inv.handed) h.inv.before
      exact hge.eq_of_length_le hle.length_le
    · rw [← hrest]
      exact (upToStop_of_stopsAt hstops).symm

/-- The end that the scanner finds. -/
def scanReason (stream : Stream) (lines : List Text) : StreamEndReason :=
  if marked lines then .done else if stream.scannerErr then .scannerErr else .eof

def reasonOf : Verdict → Option StreamEndReason
  | .next => none
  | .stop => some .handlerStop
  | .done => some .done

/-- The reason recorded is the scanner's or that of a handler that has stopped, and there is one once
the scanner has left. -/
structure Ended (stream : Stream) (lines : List Text) (s : State) : Prop where
  unread : s.scanner = .scanning ∨ s.isSending = true → marked s.lines = marked lines
  reason : ∀ r, s.status.endReason = some r →
    r = scanReason stream lines ∨ ∃ verdict, StopsAt stream.dataHandler verdict s.delivered ∧
      reasonOf verdict = some r
  scanned : s.scanner ≠ .scanning → s.isSending = false → s.status.endReason ≠ none
  stopped : Stopped stream s.delivered → s.status.endReason ≠ none

theorem setEndReason_eq (status : StreamStatus) (r : StreamEndReason) :
    (status.setEndReason r).endReason = some (status.endReason.getD r) := rfl

theorem recordErrors_endReason (errors : List Text) (status : StreamStatus) :
    (errors.foldl StreamStatus.recordError status).endReason = status.endReason := by
  induction errors generalizing status with
  | nil => rfl
  | cons msg errors ih => exact ih (status.recordError msg)

theorem record_endReason (reaction : Reaction) (status : StreamStatus) :
    (reaction.record status).endReason = status.endReason.or (reasonOf reaction.verdict) := by
  have herrors := recordErrors_endReason reaction.errors status
  rw [Reaction.record]
  cases reaction.verdict with
  | next => rw [reasonOf, Option.or_none, ← herrors]
  | stop =>
    dsimp only
    rw [setEndReason_eq, herrors]
    cases status.endReason <;> rfl
  | done =>
    dsimp only
    rw [setEndReason_eq, herrors]
    cases status.endReason <;> rfl

/-- A step that neither reads, nor hands on, nor ends anything. -/
theorem Ended.frame {lines : List Text} {s s' : State} (h : Ended stream lines s)
    (hlines : s'.lines = s.lines)
    (hscanner : s'.scanner = s.scanner) (hdelivered : s'.delivered = s.delivered)
    (hstatus : s'.status = s.status) :
    Ended stream lines s' where
  unread hs := by
    rw [hlines]
    exact h.unread (by rwa [State.isSending, hscanner] at hs)
  reason r hr := by
    rw [hdelivered]
    exact h.reason r (hstatus ▸ hr)
  scanned hs hsending := by
    rw [hstatus]
    exact h.scanned (hscanner ▸ hs) (by rwa [State.isSending, hscanner] at hsending)
  stopped hstopped := by
    rw [hstatus]
    exact h.stopped (hdelivered ▸ hstopped)

/-- The scanner leaves for a reason that is recorded, if no other was before. -/
theorem Ended.leave {lines : List Text} {s s' : State} (h : Ended stream lines s)
    (hreads : s'.scanner ≠ .scanning ∧ s'.isSending = false) (hdelivered : s'.delivered = s.delivered)
    (hstatus : s'.status.endReason = some (s.status.endReason.getD (scanReason stream lines))) :
    Ended stream lines s' where
  unread hs := by
    obtain hs | hs := hs
    · exact absurd hs hreads.1
    · exact absurd (hreads.2.symm.trans hs) Bool.false_ne_true
  reason r hr := by
    rw [hdelivered]
    rw [hstatus] at hr
    cases hbefore : s.status.endReason with
    | none =>
      rw [hbefore] at hr
      exact .inl (Option.some.inj hr).symm
    | some r' =>
      rw [hbefore] at hr
      exact h.reason r (hbefore.trans hr)
  scanned _ _ := by
    rw [hstatus]
    simp
  stopped _ := by
    rw [hstatus]
    simp

/-- The scanner leaves for a handler that has stopped. -/
theorem Ended.leave_stopped {lines : List Text} {s s' : State} (h : Ended stream lines s)
    (hstopped : Stopped stream s.delivered) (hreads : s'.scanner ≠ .scanning ∧ s'.isSending = false)
    (hdelivered : s'.delivered = s.delivered) (hstatus : s'.status = s.status) : Ended stream lines s' where
  unread hs := by
    obtain hs | hs := hs
    · exact absurd hs hreads.1
    · exact absurd (hreads.2.symm.trans hs) Bool.false_ne_true
  reason r hr := by
    rw [hdelivered]
    exact h.reason r (hstatus ▸ hr)
  scanned _ _ := by
    rw [hstatus]
    exact h.stopped hstopped
  stopped _ := by
    rw [hstatus]
    exact h.stopped hstopped

/-- The handler's next chunk. -/
theorem Ended.handle {lines : List Text} {s : State} (h : Ended stream lines s) (hinv : Inv stream all s)
    (hr : s.handler = .receiving) (data : Text) (rest : List Text) :
    Ended stream lines (s.handled stream.dataHandler data rest) := by
  have hgoes := hinv.receiving hr
  have hstatus : (s.handled stream.dataHandler data rest).status.endReason =
      s.status.endReason.or (reasonOf (stream.dataHandler s.delivered data).verdict) := record_endReason _ _
  refine ⟨h.unread, ?_, ?_, ?_⟩
  · intro r hreason
    rw [hstatus, Option.or_eq_some_iff] at hreason
    obtain hold | ⟨-, hnew⟩ := hreason
    · obtain heq | ⟨verdict, hstops, -⟩ := h.reason r hold
      · exact .inl heq
      · exact absurd ⟨verdict, hstops⟩ (hinv.not_stopped hr)
    · refine .inr ⟨_, ⟨s.delivered, data, rfl, hgoes, rfl, ?_⟩, hnew⟩
      intro hnext
      rw [hnext] at hnew
      cases hnew
  · intro hs hsending
    rw [hstatus, Ne, Option.or_eq_none_iff]
    exact fun hnone ↦ h.scanned hs hsending hnone.1
  · intro ⟨verdict, before, data', heq, _, hverdict, hne⟩
    obtain ⟨rfl, hdata⟩ := List.append_inj' heq rfl
    obtain rfl := (List.cons.inj hdata).1
    rw [hstatus, hverdict, Ne, Option.or_eq_none_iff]
    intro hnone
    cases verdict with
    | next => exact hne rfl
    | stop => cases hnone.2
    | done => cases hnone.2

def smooth (event : Event) : Bool := calm event && event ≠ .pingFail

theorem marked_cons (line : Text) (lines : List Text) :
    marked (line :: lines) = (decide (cut line = .done) || marked lines) := rfl

theorem payloads_append {first : List Text} (h : marked first = false) (rest : List Text) :
    payloads (first ++ rest) = payloads first ++ payloads rest := by
  induction first with
  | nil => rfl
  | cons line first ih =>
    rw [marked_cons] at h
    rw [List.cons_append, payloads, payloads]
    cases hcut : cut line with
    | skipped =>
      rw [hcut] at h
      exact ih h
    | payload data =>
      rw [hcut] at h
      rw [ih h]
      rfl
    | done =>
      rw [hcut] at h
      cases h

theorem marked_append (first rest : List Text) : marked (first ++ rest) = (marked first || marked rest) :=
  List.any_append

theorem ended_effect {lines : List Text} (s : State) (event : Event)
    (h : Quiet stream (payloads lines) s ∧ Ended stream lines s)
    (henabled : Enabled s event ∧ smooth event = true) :
    Quiet stream (payloads lines) (effect stream s event) ∧ Ended stream lines (effect stream s event) := by
  obtain ⟨hquiet, h⟩ := h
  obtain ⟨henabled, hsmooth⟩ := henabled
  obtain ⟨hcalm, hping⟩ := Bool.and_eq_true_iff.mp hsmooth
  refine ⟨quiet_effect s event hquiet ⟨henabled, hcalm⟩, ?_⟩
  cases event with
  | scan =>
    obtain ⟨hs, hlines, -⟩ := henabled
    obtain ⟨line, rest, heq⟩ := List.exists_cons_of_ne_nil hlines
    have hunread := h.unread (.inl hs)
    rw [heq, marked_cons] at hunread
    rw [effect, heq]
    dsimp only
    rw [State.scanned]
    cases hcut : cut line with
    | skipped =>
      rw [hcut] at hunread
      exact ⟨fun _ ↦ hunread, h.reason, fun hne ↦ absurd hs hne, h.stopped⟩
    | payload data =>
      rw [hcut] at hunread
      exact ⟨fun _ ↦ hunread, h.reason, fun _ hne ↦ absurd hne (by simp [State.isSending]), h.stopped⟩
    | done =>
      rw [hcut] at hunread
      have hreason : scanReason stream lines = .done := by
        rw [scanReason, ← hunread]
        rfl
      refine h.leave ⟨by simp, rfl⟩ rfl ?_
      rw [hreason]
      rfl
  | scanStopped =>
    have hstopped := hquiet.stopped (not_left_of_scanning henabled.1) (.inl henabled.2.2)
    exact h.leave_stopped hstopped ⟨by simp [effect], rfl⟩ rfl rfl
  | scanCancelled =>
    have hstopped := hquiet.stopped (not_left_of_scanning henabled.1) (.inr henabled.2.2)
    exact h.leave_stopped hstopped ⟨by simp [effect], rfl⟩ rfl rfl
  | scanClientGone => cases hcalm
  | scanEnd =>
    have hunread := h.unread (.inl henabled.1)
    rw [henabled.2] at hunread
    rw [effect]
    cases hscannerErr : stream.scannerErr with
    | true =>
      have hreason : scanReason stream lines = .scannerErr := by
        rw [scanReason, ← hunread, hscannerErr]
        rfl
      refine h.leave ⟨by simp, rfl⟩ rfl ?_
      rw [hreason]
      rfl
    | false =>
      have hreason : scanReason stream lines = .eof := by
        rw [scanReason, ← hunread, hscannerErr]
        rfl
      refine h.leave ⟨by simp, rfl⟩ rfl ?_
      rw [hreason]
      rfl
  | scanBroken => cases hcalm
  | send =>
    obtain ⟨data, hs⟩ := exists_of_isSending henabled.1
    rw [effect, hs]
    exact ⟨fun _ ↦ h.unread (.inr henabled.1), h.reason, fun hne ↦ absurd rfl hne, h.stopped⟩
  | sendStopped =>
    have hstopped := hquiet.stopped (not_left_of_isSending henabled.1) (.inl henabled.2)
    exact h.leave_stopped hstopped ⟨by simp [effect], rfl⟩ rfl rfl
  | sendCancelled =>
    have hstopped := hquiet.stopped (not_left_of_isSending henabled.1) (.inr henabled.2)
    exact h.leave_stopped hstopped ⟨by simp [effect], rfl⟩ rfl rfl
  | close =>
    have hclosing : s.scanner = .closing := henabled
    exact ⟨fun hs ↦ absurd hs (by simp [effect, State.isSending]), h.reason,
      fun _ _ ↦ h.scanned (by simp [hclosing]) (by simp [State.isSending, hclosing]), h.stopped⟩
  | scannerSignal =>
    exact ⟨fun hs ↦ absurd hs (by simp [effect, State.isSending]), h.reason,
      fun _ _ ↦ h.scanned (by simp [henabled.1]) (by simp [State.isSending, henabled.1]), h.stopped⟩
  | handle =>
    obtain ⟨data, rest, heq⟩ := List.exists_cons_of_ne_nil henabled.2
    rw [effect, heq]
    exact h.handle hquiet.inv henabled.1 data rest
  | drained => exact h.frame rfl rfl rfl rfl
  | handlerPanic => cases hcalm
  | handlerSignal => exact h.frame rfl rfl rfl rfl
  | ping => exact h
  | pingFail => cases hping
  | pingStopped => exact h.frame rfl rfl rfl rfl
  | pingCancelled => exact h.frame rfl rfl rfl rfl
  | pingClientGone => cases hcalm
  | pingExpired => cases hcalm
  | mainStopped => exact h.frame rfl rfl rfl rfl
  | timeout => cases hcalm
  | mainClientGone => cases hcalm
  | notify => exact h.frame rfl rfl rfl rfl
  | join => exact h.frame rfl rfl rfl rfl
  | joinTimeout => cases hcalm
  | clientLeaves => cases hcalm

theorem ended_start (lines : List Text) (pingEnabled : Bool) :
    Ended stream lines (start lines pingEnabled) where
  unread _ := rfl
  reason r hr := by cases hr
  scanned hs := absurd rfl hs
  stopped := fun ⟨_, before, data, heq, _⟩ ↦
    absurd heq.symm (List.append_ne_nil_of_right_ne_nil before (List.cons_ne_nil data []))

theorem smooth_delivered (stream : Stream) (lines : List Text) (pingEnabled : Bool) (trace : List Event)
    (h : Along (effect stream) (fun s event ↦ Enabled s event ∧ smooth event = true)
    (start lines pingEnabled) trace)
    (hreturned : (run (effect stream) (start lines pingEnabled) trace).main = .returned) :
    (run (effect stream) (start lines pingEnabled) trace).delivered =
      upToStop stream.dataHandler [] (payloads lines) := by
  obtain ⟨hquiet, -⟩ := h.invariant (fun s ↦ Quiet stream (payloads lines) s ∧ Ended stream lines s)
    ended_effect ⟨quiet_start lines pingEnabled, ended_start lines pingEnabled⟩
  exact hquiet.delivered_eq (hquiet.returned hreturned).2

/-- A handler that stops at its second chunk. -/
def stopping : Stream where
  dataHandler before _ := if before = [] then {} else { verdict := .stop }
  scannerErr := false

/-- Without a timeout, a panic, a client that leaves, a broken body or a failing ping, a stream that has
ended has delivered every payload up to the one that the handler stopped at, and its recorded end is the
end of the lines or, where the handler stopped, possibly the handler's. -/
theorem delivered_exactly (stream : Stream) (lines : List Text) (pingEnabled : Bool) (trace : List Event)
    (h : Along (effect stream) (fun s event ↦ Enabled s event ∧ smooth event = true)
    (start lines pingEnabled) trace)
    (hreturned : (run (effect stream) (start lines pingEnabled) trace).main = .returned) :
    (run (effect stream) (start lines pingEnabled) trace).delivered =
        upToStop stream.dataHandler [] (payloads lines) ∧
      ∃ r, (run (effect stream) (start lines pingEnabled) trace).status.endReason = some r ∧
        (r = scanReason stream lines ∨ ∃ verdict, StopsAt stream.dataHandler verdict
          (upToStop stream.dataHandler [] (payloads lines)) ∧ reasonOf verdict = some r) := by
  obtain ⟨hquiet, hended⟩ := h.invariant (fun s ↦ Quiet stream (payloads lines) s ∧ Ended stream lines s)
    ended_effect ⟨quiet_start lines pingEnabled, ended_start lines pingEnabled⟩
  have hleft := (hquiet.returned hreturned).1
  have hdelivered := smooth_delivered stream lines pingEnabled trace h hreturned
  refine ⟨hdelivered, ?_⟩
  have hscanning := mt not_left_of_scanning (not_not_intro hleft)
  have hsending := mt not_left_of_isSending (not_not_intro hleft)
  obtain ⟨r, hr⟩ := Option.ne_none_iff_exists'.mp (hended.scanned hscanning (Bool.eq_false_iff.mpr hsending))
  refine ⟨r, hr, ?_⟩
  rw [← hdelivered]
  exact hended.reason r hr

theorem delivered_exactly_stopping :
    ["a".toList, "b".toList] = upToStop stopping.dataHandler [] (payloads ["data: a".toList, "data: b".toList]) :=
  (delivered_exactly stopping ["data: a".toList, "data: b".toList] false
    [.scan, .send, .handle, .scan, .send, .handle, .scanEnd, .close, .handlerSignal, .mainStopped,
      .notify, .join]
    ⟨by decide, by decide, by decide, by decide, by decide, by decide, by decide, by decide, by decide,
      by decide,
      by decide, by decide, trivial⟩ rfl).1

end Calm

section Events

def bare (line : Text) : Prop := "[DONE]".toList <+: line

/-- The data events of a stream and its end, which a `[DONE]` marks with or without `data:`. -/
def eventCut (line : Text) : Cut :=
  if "[DONE]".toList <+: line then .done
  else if ¬ "data:".toList <+: line then .skipped
  else
    let data := trimSpace (line.drop 5)
    if data = [] then .skipped
    else if "[DONE]".toList <+: data then .done
    else .payload data

def eventPayloads : List Text → List Text
  | [] => []
  | line :: lines =>
    match eventCut line with
    | .skipped => eventPayloads lines
    | .payload data => data :: eventPayloads lines
    | .done => []

/-- A bare `[DONE]` comes before any other end of a stream, its handler's included. -/
def EndsBare (dataHandler : DataHandler) (before lines : List Text) : Prop :=
  ∃ first line rest, lines = first ++ line :: rest ∧ marked first = false ∧
    GoesOn dataHandler before (payloads first) ∧ bare line

variable {dataHandler : DataHandler}

theorem length_le_byteSize (line : Text) : line.length ≤ byteSize line := by
  induction line with
  | nil => exact Nat.le_refl 0
  | cons c line ih =>
    have hpos := c.utf8Size_pos
    rw [byteSize, List.map_cons, List.sum_cons, List.length_cons]
    rw [byteSize] at ih
    omega

theorem cut_eq_eventCut {line : Text} (h : ¬ bare line) : cut line = eventCut line := by
  rw [bare] at h
  rw [cut, eventCut, if_neg h]
  by_cases hdata : "data:".toList <+: line
  · rw [if_neg (not_not_intro hdata)]
    by_cases hshort : byteSize line < 6
    · have hlength := length_le_byteSize line
      have hnil : line.drop 5 = [] := List.drop_eq_nil_of_le (by omega)
      have hblank : trimSpace ([] : Text) = [] := rfl
      rw [if_pos hshort, hnil]
      dsimp only
      rw [if_pos hblank]
    · rw [if_neg hshort, if_neg fun hnot ↦ hnot.1 hdata]
  · rw [if_pos hdata]
    split
    · rfl
    · rw [if_pos ⟨hdata, h⟩]

/-- What is not blank at its start keeps its start. -/
theorem trimSpace_cons {c : Char} (hc : Common.Str.isSpace c = false) (rest : Text) :
    ∃ kept, trimSpace (c :: rest) = c :: kept := by
  have hprefix : trimSpace (c :: rest) <+: c :: rest := by
    rw [trimSpace, List.dropWhile_cons_of_neg (by simp [hc])]
    exact List.rdropWhile_prefix _ _
  have hne : trimSpace (c :: rest) ≠ [] := by
    rw [trimSpace, List.dropWhile_cons_of_neg (by simp [hc])]
    intro hnil
    have hall := List.rdropWhile_eq_nil_iff.mp hnil c List.mem_cons_self
    exact absurd (hc.symm.trans hall) Bool.false_ne_true
  obtain ⟨d, kept, heq⟩ := List.exists_cons_of_ne_nil hne
  rw [heq] at hprefix ⊢
  obtain ⟨rfl, -⟩ := List.cons_prefix_cons.mp hprefix
  exact ⟨kept, rfl⟩

/-- Without `data:` before it, a `[DONE]` is cut to what stands behind its fifth letter. -/
theorem cut_of_bare {line : Text} (h : bare line) : ∃ data, cut line = .payload data := by
  have hlength : 6 ≤ byteSize line := (h.length_le).trans (length_le_byteSize line)
  obtain ⟨rest, rfl⟩ := h
  have hdrop : ("[DONE]".toList ++ rest).drop 5 = ']' :: rest := rfl
  obtain ⟨kept, hkept⟩ := trimSpace_cons (by decide : Common.Str.isSpace ']' = false) rest
  have hmarker : ¬ "[DONE]".toList <+: ']' :: kept := by
    intro hprefix
    exact absurd (List.cons_prefix_cons.mp hprefix).1 (by decide)
  refine ⟨']' :: kept, ?_⟩
  rw [cut, if_neg (Nat.not_lt.mpr hlength), if_neg fun hnot ↦ hnot.2 (List.prefix_append _ _), hdrop]
  dsimp only
  rw [hkept, if_neg (List.cons_ne_nil _ _), if_neg hmarker]

theorem eventCut_of_bare {line : Text} (h : bare line) : eventCut line = .done := if_pos h

theorem endsBare_cons {before : List Text} {line : Text} {lines : List Text} (h : ¬ bare line) :
    EndsBare dataHandler before (line :: lines) ↔
      marked [line] = false ∧ GoesOn dataHandler before (payloads [line]) ∧
        EndsBare dataHandler (before ++ payloads [line]) lines := by
  have hpayloads : ∀ {first : List Text}, marked [line] = false →
      payloads (line :: first) = payloads [line] ++ payloads first := fun hline ↦ payloads_append hline _
  constructor
  · intro ⟨first, line', rest, heq, hmarked, hgoes, hbare⟩
    cases first with
    | nil =>
      obtain ⟨rfl, rfl⟩ := List.cons.inj heq
      exact absurd hbare h
    | cons line'' first =>
      obtain ⟨rfl, rfl⟩ := List.cons.inj heq
      rw [← List.singleton_append, marked_append, Bool.or_eq_false_iff] at hmarked
      rw [hpayloads hmarked.1, goesOn_append] at hgoes
      exact ⟨hmarked.1, hgoes.1, first, line', rest, rfl, hmarked.2, hgoes.2, hbare⟩
  · intro ⟨hline, hgoes, first, line', rest, heq, hmarked, hrest, hbare⟩
    refine ⟨line :: first, line', rest, ?_, ?_, ?_, hbare⟩
    · rw [heq, List.cons_append]
    · rw [← List.singleton_append, marked_append, hline, hmarked]
      rfl
    · rw [hpayloads hline, goesOn_append]
      exact ⟨hgoes, hrest⟩

theorem upToStop_payloads_iff (before lines : List Text) :
    upToStop dataHandler before (payloads lines) = upToStop dataHandler before (eventPayloads lines) ↔
      ¬ EndsBare dataHandler before lines := by
  induction lines generalizing before with
  | nil =>
    refine iff_of_true rfl ?_
    intro ⟨first, line, rest, heq, _⟩
    exact absurd heq.symm (List.append_ne_nil_of_right_ne_nil first (List.cons_ne_nil line rest))
  | cons line lines ih =>
    by_cases hbare : bare line
    · obtain ⟨data, hcut⟩ := cut_of_bare hbare
      refine iff_of_false ?_ (not_not_intro ⟨[], line, lines, rfl, rfl, trivial, hbare⟩)
      rw [payloads, hcut, eventPayloads, eventCut_of_bare hbare]
      dsimp only
      rw [upToStop, upToStop]
      exact List.cons_ne_nil _ _
    · rw [endsBare_cons hbare, marked_cons, payloads, payloads, eventPayloads, ← cut_eq_eventCut hbare]
      cases hcut : cut line with
      | skipped =>
        dsimp only
        rw [payloads, List.append_nil, ih before]
        simp [GoesOn, marked]
      | payload data =>
        dsimp only
        rw [payloads, upToStop, upToStop, GoesOn, List.cons.injEq]
        by_cases hnext : (dataHandler before data).verdict = .next
        · rw [if_pos hnext, if_pos hnext, ih (before ++ [data])]
          simp [GoesOn, marked, hnext]
        · rw [if_neg hnext, if_neg hnext]
          simp [hnext]
      | done =>
        refine iff_of_true rfl ?_
        simp

/-- A smooth stream that has ended has delivered the data of its events up to the one that the handler
stopped at, exactly if no `[DONE]` without `data:` ends it: of such a line the handler is given the rest. -/
theorem delivered_events_iff (stream : Stream) (lines : List Text) (pingEnabled : Bool) (trace : List Event)
    (h : Along (effect stream) (fun s event ↦ Enabled s event ∧ smooth event = true)
    (start lines pingEnabled) trace)
    (hreturned : (run (effect stream) (start lines pingEnabled) trace).main = .returned) :
    (run (effect stream) (start lines pingEnabled) trace).delivered =
        upToStop stream.dataHandler [] (eventPayloads lines) ↔
      ¬ EndsBare stream.dataHandler [] lines := by
  rw [smooth_delivered stream lines pingEnabled trace h hreturned, upToStop_payloads_iff]

theorem delivered_events_iff_stopping :
    ["a".toList] = upToStop stopping.dataHandler [] (eventPayloads ["data: a".toList]) ↔
      ¬ EndsBare stopping.dataHandler [] ["data: a".toList] :=
  delivered_events_iff stopping ["data: a".toList] false
    [.scan, .send, .handle, .scanEnd, .close, .scannerSignal, .mainStopped, .drained, .handlerSignal,
      .notify, .join]
    ⟨by decide, by decide, by decide, by decide, by decide, by decide, by decide, by decide, by decide,
      by decide,
      by decide, trivial⟩ rfl

end Events

end AllAiTools.NewApi.Relay.StreamDelivers
