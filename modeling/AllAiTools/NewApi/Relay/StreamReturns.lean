import AllAiTools.NewApi.Relay.StreamDelivers

namespace AllAiTools.NewApi.Relay.StreamReturns

open Foundation.Run StreamScanner StreamDelivers
open ChatViaResponses (Text)

section Early

/-- The handler stops at a payload that is not on the last line. -/
def StopsEarly (dataHandler : DataHandler) (lines : List Text) : Prop :=
  ∃ first line rest data, lines = first ++ line :: rest ∧ rest ≠ [] ∧ marked first = false ∧
    cut line = .payload data ∧ GoesOn dataHandler [] (payloads first) ∧
    (dataHandler (payloads first) data).verdict ≠ .next

/-- The line of a payload. -/
theorem exists_line {lines before after : List Text} {data : Text} (hmarked : marked lines = false)
    (h : payloads lines = before ++ data :: after) :
    ∃ first line rest, lines = first ++ line :: rest ∧ cut line = .payload data ∧ payloads first = before ∧
      payloads rest = after := by
  induction lines generalizing before with
  | nil => exact absurd h.symm (List.append_ne_nil_of_right_ne_nil before (List.cons_ne_nil data after))
  | cons line lines ih =>
    rw [marked_cons] at hmarked
    rw [payloads] at h
    cases hcut : cut line with
    | skipped =>
      rw [hcut] at hmarked h
      obtain ⟨first, line', rest, rfl, hline, hfirst, hrest⟩ := ih hmarked h
      refine ⟨line :: first, line', rest, rfl, hline, ?_, hrest⟩
      rw [payloads, hcut]
      exact hfirst
    | payload data' =>
      rw [hcut] at hmarked h
      cases before with
      | nil =>
        obtain ⟨rfl, rfl⟩ := List.cons.inj h
        exact ⟨[], line, lines, rfl, hcut, rfl, rfl⟩
      | cons data'' before =>
        obtain ⟨rfl, hrest⟩ := List.cons.inj h
        obtain ⟨first, line', rest, rfl, hline, hfirst, hafter⟩ := ih hmarked hrest
        refine ⟨line :: first, line', rest, rfl, hline, ?_, hafter⟩
        rw [payloads, hcut]
        exact congrArg (List.cons data') hfirst
    | done =>
      rw [hcut] at hmarked
      cases hmarked

end Early

section Consumed

variable {stream : Stream} {lines : List Text}

def reads (s : State) : Prop := s.scanner = .scanning ∨ s.isSending = true

/-- The chunk that is about to be handed on. -/
def inHand (s : State) : List Text :=
  match s.scanner with
  | .sending data => [data]
  | _ => []

/-- The chunks are those of the lines that have been read. -/
def Consumed (lines : List Text) (s : State) : Prop :=
  reads s → ∃ consumed, lines = consumed ++ s.lines ∧ marked consumed = false ∧
    s.delivered ++ s.dataChan ++ inHand s = payloads consumed

theorem Consumed.frame {s s' : State} (h : Consumed lines s) (hreads : reads s' → reads s)
    (hlines : s'.lines = s.lines) (hchan : s'.dataChan = s.dataChan) (hdelivered : s'.delivered = s.delivered)
    (hhand : reads s' → inHand s' = inHand s) : Consumed lines s' := by
  intro hr
  obtain ⟨consumed, heq, hmarked, hchunks⟩ := h (hreads hr)
  refine ⟨consumed, ?_, hmarked, ?_⟩
  · rw [hlines]
    exact heq
  · rw [hdelivered, hchan, hhand hr]
    exact hchunks

theorem Consumed.leave {s : State} (h : ¬ reads s) : Consumed lines s := fun hr ↦ absurd hr h

theorem Consumed.scan {s : State} (h : Consumed lines s) (hs : s.scanner = .scanning) {line : Text}
    {rest : List Text} (heq : s.lines = line :: rest) : Consumed lines (s.scanned line rest) := by
  obtain ⟨consumed, hlines, hmarked, hchunks⟩ := h (.inl hs)
  rw [heq, ← List.singleton_append, ← List.append_assoc] at hlines
  rw [inHand, hs, List.append_nil] at hchunks
  have hmarked' : ∀ cut', cut line = cut' → cut' ≠ .done → marked (consumed ++ [line]) = false := by
    intro cut' hcut hne
    rw [marked_append, hmarked, marked_cons, hcut, decide_eq_false hne]
    rfl
  have hpayloads : payloads (consumed ++ [line]) = payloads consumed ++ payloads [line] :=
    payloads_append hmarked [line]
  rw [State.scanned]
  cases hcut : cut line with
  | skipped =>
    refine fun _ ↦ ⟨consumed ++ [line], hlines, hmarked' _ hcut (by simp), ?_⟩
    rw [hpayloads, payloads, hcut]
    simp only [inHand, hs]
    rw [hchunks]
    rfl
  | payload data =>
    refine fun _ ↦ ⟨consumed ++ [line], hlines, hmarked' _ hcut (by simp), ?_⟩
    rw [hpayloads, payloads, hcut]
    simp only [inHand]
    rw [hchunks]
    rfl
  | done => exact .leave (by simp [reads, State.isSending])

theorem Consumed.handle {s s' : State} (h : Consumed lines s) {data : Text} {rest : List Text}
    (hchan : s.dataChan = data :: rest) (hrest : s'.dataChan = rest)
    (hdelivered : s'.delivered = s.delivered ++ [data]) (hlines : s'.lines = s.lines)
    (hscanner : s'.scanner = s.scanner) : Consumed lines s' := by
  have hreads : reads s' ↔ reads s := by rw [reads, reads, State.isSending, State.isSending, hscanner]
  have hhand : inHand s' = inHand s := by rw [inHand, inHand, hscanner]
  intro hr
  obtain ⟨consumed, heq, hmarked, hchunks⟩ := h (hreads.mp hr)
  refine ⟨consumed, ?_, hmarked, ?_⟩
  · rw [hlines]
    exact heq
  · rw [hdelivered, hrest, hhand, ← hchunks, hchan, List.append_assoc s.delivered, List.singleton_append]

theorem consumed_effect (s : State) (event : Event) (h : Consumed lines s) (henabled : Enabled s event) :
    Consumed lines (effect stream s event) := by
  cases event with
  | scan =>
    obtain ⟨hs, hlines, -⟩ := henabled
    obtain ⟨line, rest, heq⟩ := List.exists_cons_of_ne_nil hlines
    rw [effect, heq]
    exact h.scan hs heq
  | scanStopped => exact .leave (by simp [effect, reads, State.isSending])
  | scanCancelled => exact .leave (by simp [effect, reads, State.isSending])
  | scanClientGone => exact .leave (by simp [effect, reads, State.isSending])
  | scanEnd =>
    rw [effect]
    cases stream.scannerErr with
    | true => exact .leave (by simp [reads, State.isSending])
    | false => exact .leave (by simp [reads, State.isSending])
  | scanBroken => exact .leave (by simp [effect, reads, State.isSending])
  | send =>
    obtain ⟨data, hs⟩ := exists_of_isSending henabled.1
    obtain ⟨consumed, hlines, hmarked, hchunks⟩ := h (.inr henabled.1)
    have hhand : inHand s = [data] := by rw [inHand, hs]
    rw [effect, hs]
    refine fun _ ↦ ⟨consumed, hlines, hmarked, ?_⟩
    rw [← hchunks, hhand]
    simp only [inHand, List.append_nil, List.append_assoc]
  | sendStopped => exact .leave (by simp [effect, reads, State.isSending])
  | sendCancelled => exact .leave (by simp [effect, reads, State.isSending])
  | close => exact .leave (by simp [effect, reads, State.isSending])
  | scannerSignal => exact .leave (by simp [effect, reads, State.isSending])
  | handle =>
    obtain ⟨data, rest, heq⟩ := List.exists_cons_of_ne_nil henabled.2
    rw [effect, heq]
    exact h.handle heq rfl rfl rfl rfl
  | handlerPanic =>
    obtain ⟨data, rest, heq⟩ := List.exists_cons_of_ne_nil henabled.2
    rw [effect, heq]
    exact h.handle heq rfl rfl rfl rfl
  | _ => exact h

/-- A handler that has stopped while there are lines to read, or a chunk to hand on, has stopped early. -/
theorem Consumed.stopsEarly {s : State} (h : Consumed lines s) (hreads : reads s)
    (hstopped : Stopped stream s.delivered) (hmore : s.lines ≠ [] ∨ inHand s ≠ []) :
    StopsEarly stream.dataHandler lines := by
  obtain ⟨consumed, hlines, hmarked, hchunks⟩ := h hreads
  obtain ⟨verdict, before, data, heq, hgoes, hverdict, hne⟩ := hstopped
  rw [heq, List.append_assoc, List.append_assoc, List.singleton_append] at hchunks
  obtain ⟨first, line, rest, rfl, hline, rfl, hrest⟩ := exists_line hmarked hchunks.symm
  rw [marked_append, Bool.or_eq_false_iff] at hmarked
  refine ⟨first, line, rest ++ s.lines, data, ?_, ?_, hmarked.1, hline, hgoes, ?_⟩
  · rw [hlines, List.append_assoc, List.cons_append]
  · intro hnil
    obtain ⟨rfl, hnone⟩ := List.append_eq_nil_iff.mp hnil
    obtain hmore | hmore := hmore
    · exact hmore hnone
    · exact hmore (List.append_eq_nil_iff.mp hrest.symm).2
  · rw [hverdict]
    exact hne

end Consumed


variable {stream : Stream} {lines : List Text} {pingEnabled : Bool}

/-- The messages that each of the goroutines has left. -/
def scannerLeft : ScannerAt → ℕ
  | .gone => 1
  | _ => 0

def handlerLeft : HandlerAt → ℕ
  | .gone => 1
  | _ => 0

def mainLeft : MainAt → ℕ
  | .waiting | .notifying => 0
  | .joining | .returned => 1

/-- Where the messages are that the goroutines have left: in the channel, with a scanner that a handler
stopped, or with the pings. -/
def Accounted (stream : Stream) (lines : List Text) (pingEnabled : Bool) (s : State) : Prop :=
  ∃ taken lost, s.stops + taken + lost = scannerLeft s.scanner + handlerLeft s.handler ∧
    (taken = 0 ∨ taken = 1 ∧ Stopped stream s.delivered ∧ StopsEarly stream.dataHandler lines ∧ ¬ reads s) ∧
    (lost = 0 ∨ lost = 1 ∧ s.pinging = false ∧ pingEnabled = true)

/-- What holds of a calm stream: the messages that the goroutines leave are accounted for as long as one
is waited for, and there is room for those to come. -/
structure Live (stream : Stream) (lines : List Text) (pingEnabled : Bool) (s : State) : Prop where
  quiet : Quiet stream (payloads lines) s
  consumed : Consumed lines s
  pinged : s.pinging = true → pingEnabled = true
  room : s.stops ≤ scannerLeft s.scanner + handlerLeft s.handler + mainLeft s.main
  closed : s.stopClosed = true → s.main = .returned
  cancelled : s.main ≠ .waiting → s.cancelled = true
  accounted : s.main = .waiting → Accounted stream lines pingEnabled s

def scannerWork : ScannerAt → ℕ
  | .scanning => 3
  | .sending _ => 5
  | .closing => 2
  | .signalling => 1
  | .gone => 0

def handlerWork : HandlerAt → ℕ
  | .receiving => 2
  | .signalling => 1
  | .gone => 0

def mainWork : MainAt → ℕ
  | .waiting => 3
  | .notifying => 2
  | .joining => 1
  | .returned => 0

/-- How much there is left to do at most. -/
def work (s : State) : ℕ :=
  4 * s.lines.length + s.dataChan.length + scannerWork s.scanner + handlerWork s.handler + mainWork s.main +
    s.pinging.toNat

theorem live_start (lines : List Text) (pingEnabled : Bool) :
    Live stream lines pingEnabled (start lines pingEnabled) where
  quiet := quiet_start lines pingEnabled
  consumed _ := ⟨[], rfl, rfl, rfl⟩
  pinged h := h
  room := Nat.zero_le _
  closed h := by cases h
  cancelled h := absurd rfl h
  accounted _ := ⟨0, 0, rfl, .inl rfl, .inl rfl⟩

theorem scannerLeft_eq {scanner : ScannerAt} (h : scanner ≠ .gone) : scannerLeft scanner = 0 := by
  cases scanner with
  | gone => exact absurd rfl h
  | _ => rfl

theorem handlerLeft_eq {handler : HandlerAt} (h : handler ≠ .gone) : handlerLeft handler = 0 := by
  cases handler with
  | gone => exact absurd rfl h
  | _ => rfl

theorem scannerLeft_le (scanner : ScannerAt) : scannerLeft scanner ≤ 1 := by
  cases scanner with
  | gone => exact Nat.le_refl 1
  | _ => exact Nat.zero_le 1

theorem handlerLeft_le (handler : HandlerAt) : handlerLeft handler ≤ 1 := by
  cases handler with
  | gone => exact Nat.le_refl 1
  | _ => exact Nat.zero_le 1

theorem mainLeft_le (main : MainAt) : mainLeft main ≤ 1 := by
  cases main with
  | waiting => exact Nat.zero_le 1
  | notifying => exact Nat.zero_le 1
  | joining => exact Nat.le_refl 1
  | returned => exact Nat.le_refl 1

theorem handled_work (s : State) (dataHandler : DataHandler) (data : Text) (rest : List Text) :
    handlerWork (s.handled dataHandler data rest).handler ≤ 2 := by
  simp only [State.handled]
  split
  · exact Nat.le_refl 2
  · exact Nat.le_succ 1

theorem Live.opened {s : State} (h : Live stream lines pingEnabled s) (hmain : s.main = .waiting) :
    ¬ s.stopClosed = true :=
  fun hc ↦ absurd ((h.closed hc).symm.trans hmain) (by simp)

/-- A step that leaves no message and takes none. -/
theorem Accounted.frame {s s' : State} (h : Accounted stream lines pingEnabled s)
    (hstops : s'.stops = s.stops)
    (hscanner : scannerLeft s'.scanner = scannerLeft s.scanner)
    (hhandler : handlerLeft s'.handler = handlerLeft s.handler)
    (hdelivered : Stopped stream s.delivered → s'.delivered = s.delivered) (hreads : reads s' → reads s)
    (hpinging : s.pinging = false → s'.pinging = false) : Accounted stream lines pingEnabled s' := by
  obtain ⟨taken, lost, hsum, htaken, hlost⟩ := h
  refine ⟨taken, lost, ?_, ?_, ?_⟩
  · rw [hstops, hscanner, hhandler]
    exact hsum
  · refine htaken.imp_right fun ⟨hone, hstopped, hearly, hnot⟩ ↦ ⟨hone, ?_, hearly, fun hr ↦ hnot (hreads hr)⟩
    rw [hdelivered hstopped]
    exact hstopped
  · exact hlost.imp_right fun ⟨hone, hoff, hon⟩ ↦ ⟨hone, hpinging hoff, hon⟩

/-- A step that leaves a message. -/
theorem Accounted.leave {s s' : State} (h : Accounted stream lines pingEnabled s)
    (hstops : s'.stops = s.stops + 1)
    (hleft : scannerLeft s'.scanner + handlerLeft s'.handler =
      scannerLeft s.scanner + handlerLeft s.handler + 1)
    (hdelivered : s'.delivered = s.delivered) (hreads : reads s' → reads s)
    (hpinging : s'.pinging = s.pinging) :
    Accounted stream lines pingEnabled s' := by
  obtain ⟨taken, lost, hsum, htaken, hlost⟩ := h
  refine ⟨taken, lost, by omega, ?_, ?_⟩
  · rw [hdelivered]
    exact htaken.imp_right fun ⟨hone, hstopped, hearly, hnot⟩ ↦
      ⟨hone, hstopped, hearly, fun hr ↦ hnot (hreads hr)⟩
  · rw [hpinging]
    exact hlost

/-- The scanner takes the handler's message. -/
theorem Accounted.take {s s' : State} (h : Accounted stream lines pingEnabled s) (hreads : reads s)
    (hstopped : Stopped stream s.delivered) (hearly : StopsEarly stream.dataHandler lines)
    (hpos : 0 < s.stops) (hstops : s'.stops = s.stops - 1)
    (hscanner : scannerLeft s'.scanner = scannerLeft s.scanner) (hhandler : s'.handler = s.handler)
    (hdelivered : s'.delivered = s.delivered) (hnot : ¬ reads s') (hpinging : s'.pinging = s.pinging) :
    Accounted stream lines pingEnabled s' := by
  obtain ⟨taken, lost, hsum, htaken, hlost⟩ := h
  have hnone : taken = 0 := htaken.resolve_right fun ⟨_, _, _, hgone⟩ ↦ hgone hreads
  refine ⟨1, lost, ?_, .inr ⟨rfl, ?_, hearly, hnot⟩, ?_⟩
  · rw [hscanner, hhandler]
    omega
  · rw [hdelivered]
    exact hstopped
  · rw [hpinging]
    exact hlost

/-- A step of the scanner that neither leaves a message nor goes. -/
theorem Live.read {s s' : State} (h : Live stream lines pingEnabled s)
    (hquiet : Quiet stream (payloads lines) s')
    (hconsumed : Consumed lines s')
    (hgone : s.scanner ≠ .gone ∧ s'.scanner ≠ .gone) (hpinging : s'.pinging = s.pinging)
    (hhandler : s'.handler = s.handler) (hmain : s'.main = s.main) (hclosed : s'.stopClosed = s.stopClosed)
    (hcancelled : s'.cancelled = s.cancelled) (hstops : s'.stops ≤ s.stops)
    (haccounted : Accounted stream lines pingEnabled s → s'.main = .waiting →
      Accounted stream lines pingEnabled s') :
    Live stream lines pingEnabled s' where
  quiet := hquiet
  consumed := hconsumed
  pinged hp := h.pinged (hpinging ▸ hp)
  room := by
    have hroom := h.room
    rw [scannerLeft_eq hgone.1] at hroom
    rw [hhandler, hmain, scannerLeft_eq hgone.2]
    omega
  closed hc := hmain.trans (h.closed (hclosed ▸ hc))
  cancelled hm := hcancelled.trans (h.cancelled (hmain ▸ hm))
  accounted hm := haccounted (h.accounted (hmain.symm.trans hm)) hm

/-- A step of the scanner that takes no message either. -/
theorem Live.move {s s' : State} (h : Live stream lines pingEnabled s)
    (hquiet : Quiet stream (payloads lines) s')
    (hconsumed : Consumed lines s')
    (hgone : s.scanner ≠ .gone ∧ s'.scanner ≠ .gone) (hpinging : s'.pinging = s.pinging)
    (hhandler : s'.handler = s.handler) (hmain : s'.main = s.main) (hclosed : s'.stopClosed = s.stopClosed)
    (hcancelled : s'.cancelled = s.cancelled) (hstops : s'.stops = s.stops)
    (hdelivered : s'.delivered = s.delivered)
    (hreads : reads s' → reads s) : Live stream lines pingEnabled s' := by
  refine h.read hquiet hconsumed hgone hpinging hhandler hmain hclosed hcancelled (Nat.le_of_eq hstops) fun haccounted _ ↦ ?_
  refine haccounted.frame hstops ?_ (congrArg handlerLeft hhandler) (fun _ ↦ hdelivered) hreads hpinging.trans
  rw [scannerLeft_eq hgone.1, scannerLeft_eq hgone.2]

/-- The scanner is stopped by the handler's message. -/
theorem Live.stopped {s s' : State} (h : Live stream lines pingEnabled s)
    (hquiet : Quiet stream (payloads lines) s')
    (hconsumed : Consumed lines s')
    (hreads : reads s) (hmore : s.lines ≠ [] ∨ inHand s ≠ []) (hleft : ¬ Left s)
    (hstopping : s.Stopping) (hgone : s'.scanner ≠ .gone) (hnot : ¬ reads s')
    (hpinging : s'.pinging = s.pinging) (hhandler : s'.handler = s.handler) (hmain : s'.main = s.main)
    (hclosed : s'.stopClosed = s.stopClosed) (hcancelled : s'.cancelled = s.cancelled)
    (hstops : s'.stops = s.stops - 1) (hdelivered : s'.delivered = s.delivered) :
    Live stream lines pingEnabled s' := by
  have hpresent : s.scanner ≠ .gone := fun hg ↦ hleft (.inr hg)
  refine h.read hquiet hconsumed ⟨hpresent,
    hgone⟩ hpinging hhandler hmain hclosed hcancelled ?_ fun haccounted hm ↦ ?_
  · rw [hstops]
    exact Nat.sub_le _ _
  · have hpos : 0 < s.stops := hstopping.resolve_right (h.opened (hmain.symm.trans hm))
    have hstopped := h.quiet.stopped hleft (.inl hstopping)
    refine haccounted.take hreads hstopped (h.consumed.stopsEarly hreads hstopped hmore) hpos hstops ?_ hhandler hdelivered hnot
      hpinging
    rw [scannerLeft_eq hpresent, scannerLeft_eq hgone]

/-- Every step but that of a ping lowers the work left. -/
def works (event : Event) : Bool := event ≠ .ping

theorem live_effect (s : State) (event : Event) (h : Live stream lines pingEnabled s)
    (henabled : Enabled s event ∧ calm event = true) :
    Live stream lines pingEnabled (effect stream s event) ∧
      work (effect stream s event) + (works event).toNat ≤ work s := by
  have hquiet := quiet_effect s event h.quiet henabled
  obtain ⟨henabled, hcalm⟩ := henabled
  have hconsumed : Consumed lines (effect stream s event) := consumed_effect s event h.consumed henabled
  have hroom := h.room
  cases event with
  | scan =>
    obtain ⟨hs, hlines, -⟩ := henabled
    obtain ⟨line, rest, heq⟩ := List.exists_cons_of_ne_nil hlines
    have hreads : reads s := .inl hs
    rw [effect, heq] at hquiet hconsumed ⊢
    dsimp only at hquiet hconsumed ⊢
    rw [State.scanned] at hquiet hconsumed ⊢
    cases hcut : cut line with
    | skipped =>
      rw [hcut] at hquiet hconsumed
      refine ⟨h.move hquiet hconsumed ⟨by simp [hs], by simp [hs]⟩ rfl rfl rfl rfl rfl rfl rfl fun _ ↦
        hreads, ?_⟩
      simp only [work, heq, List.length_cons, works]
      simp
    | payload data =>
      rw [hcut] at hquiet hconsumed
      refine ⟨h.move hquiet hconsumed ⟨by simp [hs], by simp⟩ rfl rfl rfl rfl rfl rfl rfl fun _ ↦ hreads, ?_⟩
      simp only [work, hs, heq, List.length_cons, scannerWork, works]
      simp
      omega
    | done =>
      rw [hcut] at hquiet hconsumed
      refine ⟨h.move hquiet hconsumed ⟨by simp [hs], by simp⟩ rfl rfl rfl rfl rfl rfl rfl fun _ ↦ hreads, ?_⟩
      simp only [work, State.setEndReason, hs, heq, List.length_cons, scannerWork, works]
      simp
  | scanStopped =>
    refine ⟨h.stopped hquiet hconsumed (.inl henabled.1) (.inl henabled.2.1)
      (not_left_of_scanning henabled.1) henabled.2.2 (by simp [effect])
      (by simp [effect, reads, State.isSending]) rfl rfl rfl rfl rfl rfl rfl, ?_⟩
    simp only [work, effect, State.receiveStop, henabled.1, scannerWork, works]
    simp
  | scanCancelled =>
    refine ⟨h.move hquiet hconsumed ⟨by simp [henabled.1], by simp [effect]⟩ rfl rfl rfl rfl rfl rfl rfl
      fun _ ↦ .inl henabled.1, ?_⟩
    simp only [work, effect, henabled.1, scannerWork, works]
    simp
  | scanClientGone => cases hcalm
  | scanEnd =>
    rw [effect] at hquiet hconsumed ⊢
    cases hscannerErr : stream.scannerErr with
    | true =>
      rw [hscannerErr] at hquiet hconsumed
      refine ⟨h.move hquiet hconsumed ⟨by simp [henabled.1], by simp⟩ rfl rfl rfl rfl rfl rfl rfl
        fun _ ↦ .inl henabled.1, ?_⟩
      simp only [work, State.setEndReason, henabled.1, if_true, scannerWork, works]
      simp
    | false =>
      rw [hscannerErr] at hquiet hconsumed
      refine ⟨h.move hquiet hconsumed ⟨by simp [henabled.1], by simp⟩ rfl rfl rfl rfl rfl rfl rfl
        fun _ ↦ .inl henabled.1, ?_⟩
      simp only [work, State.setEndReason, henabled.1, Bool.false_eq_true, if_false, scannerWork, works]
      simp
  | scanBroken => cases hcalm
  | send =>
    obtain ⟨data, hs⟩ := exists_of_isSending henabled.1
    have hreads : reads s := .inr henabled.1
    rw [effect, hs] at hquiet hconsumed ⊢
    refine ⟨h.move hquiet hconsumed ⟨by simp [hs], by simp⟩ rfl rfl rfl rfl rfl rfl rfl fun _ ↦ hreads, ?_⟩
    simp only [work, hs, List.length_append, List.length_singleton, scannerWork, works]
    simp
    omega
  | sendStopped =>
    obtain ⟨data, hs⟩ := exists_of_isSending henabled.1
    refine ⟨h.stopped hquiet hconsumed (.inr henabled.1) (.inr (by simp [inHand, hs]))
      (not_left_of_isSending henabled.1) henabled.2 (by simp [effect])
      (by simp [effect, reads, State.isSending]) rfl rfl rfl rfl rfl rfl rfl, ?_⟩
    simp only [work, effect, State.receiveStop, hs, scannerWork, works]
    simp
  | sendCancelled =>
    obtain ⟨data, hs⟩ := exists_of_isSending henabled.1
    refine ⟨h.move hquiet hconsumed ⟨by simp [hs], by simp [effect]⟩ rfl rfl rfl rfl rfl rfl rfl
      fun _ ↦ .inr henabled.1, ?_⟩
    simp only [work, effect, hs, scannerWork, works]
    simp
  | close =>
    have hs : s.scanner = .closing := henabled
    refine ⟨h.move hquiet hconsumed ⟨by simp [hs], by simp [effect]⟩ rfl rfl rfl rfl rfl rfl rfl
      fun hr ↦ absurd hr (by simp [effect, reads, State.isSending]), ?_⟩
    simp only [work, effect, hs, scannerWork, works]
    simp
  | scannerSignal =>
    have hs : s.scanner = .signalling := henabled.1
    have hbefore : scannerLeft s.scanner = 0 := scannerLeft_eq (by simp [hs])
    rw [hbefore] at hroom
    refine ⟨⟨hquiet, hconsumed, h.pinged, ?_, h.closed, h.cancelled,
      fun hmain ↦ (h.accounted hmain).leave ?_ ?_ rfl ?_ rfl⟩, ?_⟩
    · simp only [effect, State.safeSendBool, scannerLeft]
      split
      · omega
      · omega
    · simp only [effect, State.safeSendBool, if_neg (h.opened hmain)]
    · rw [hbefore]
      simp only [effect, State.safeSendBool, scannerLeft]
      omega
    · exact fun hr ↦ absurd hr (by simp [effect, reads, State.isSending])
    · simp only [work, effect, State.safeSendBool, hs, scannerWork, works]
      simp
  | handle =>
    obtain ⟨data, rest, heq⟩ := List.exists_cons_of_ne_nil henabled.2
    have hr : s.handler = .receiving := henabled.1
    have hbefore : handlerLeft s.handler = 0 := handlerLeft_eq (by simp [hr])
    rw [hbefore] at hroom
    rw [effect, heq] at hquiet hconsumed ⊢
    dsimp only at hquiet hconsumed ⊢
    have hne : (s.handled stream.dataHandler data rest).handler ≠ .gone := by
      simp only [State.handled]
      split
      · simp
      · simp
    have hafter := handlerLeft_eq hne
    refine ⟨⟨hquiet, hconsumed, h.pinged, ?_, h.closed, h.cancelled,
      fun hmain ↦ (h.accounted hmain).frame rfl rfl ?_ ?_
      (fun hreads ↦ hreads) (fun hp ↦ hp)⟩, ?_⟩
    · rw [hafter]
      exact hroom
    · rw [hafter, hbefore]
    · exact fun hstopped ↦ absurd hstopped (h.quiet.inv.not_stopped hr)
    · have hwork := handled_work s stream.dataHandler data rest
      have hlines : (s.handled stream.dataHandler data rest).lines = s.lines := rfl
      have hchan : (s.handled stream.dataHandler data rest).dataChan = rest := rfl
      have hscanner : (s.handled stream.dataHandler data rest).scanner = s.scanner := rfl
      have hmain : (s.handled stream.dataHandler data rest).main = s.main := rfl
      have hpinging : (s.handled stream.dataHandler data rest).pinging = s.pinging := rfl
      have hreceiving : handlerWork .receiving = 2 := rfl
      simp only [work, hlines, hchan, hscanner, hmain, hpinging, heq, List.length_cons, hr, hreceiving, works]
      simp
      omega
  | drained =>
    have hr : s.handler = .receiving := henabled.1
    have hbefore : handlerLeft s.handler = 0 := handlerLeft_eq (by simp [hr])
    rw [hbefore] at hroom
    refine ⟨⟨hquiet, hconsumed, h.pinged, hroom, h.closed, h.cancelled,
      fun hmain ↦ (h.accounted hmain).frame rfl rfl
      hbefore.symm (fun _ ↦ rfl) (fun hreads ↦ hreads) (fun hp ↦ hp)⟩, ?_⟩
    simp only [work, effect, hr, handlerWork, works]
    simp
  | handlerPanic => cases hcalm
  | handlerSignal =>
    have hs : s.handler = .signalling := henabled.1
    have hbefore : handlerLeft s.handler = 0 := handlerLeft_eq (by simp [hs])
    rw [hbefore] at hroom
    refine ⟨⟨hquiet, hconsumed, h.pinged, ?_, h.closed, h.cancelled,
      fun hmain ↦ (h.accounted hmain).leave ?_ ?_ rfl
      (fun hreads ↦ hreads) rfl⟩, ?_⟩
    · simp only [effect, State.safeSendBool, handlerLeft]
      split
      · omega
      · omega
    · simp only [effect, State.safeSendBool, if_neg (h.opened hmain)]
    · rw [hbefore]
      simp only [effect, State.safeSendBool, handlerLeft]
    · simp only [work, effect, State.safeSendBool, hs, handlerWork, works]
      simp
  | ping => exact ⟨h, Nat.le_refl _⟩
  | pingFail =>
    have hp : s.pinging = true := henabled
    refine ⟨⟨hquiet, hconsumed, fun hon ↦ absurd hon Bool.false_ne_true, hroom, h.closed, h.cancelled,
      fun hmain ↦ (h.accounted hmain).frame rfl rfl rfl (fun _ ↦ rfl) (fun hreads ↦ hreads) fun _ ↦ rfl⟩, ?_⟩
    simp only [work, effect, State.setEndReason, hp, works]
    simp
  | pingStopped =>
    have hp : s.pinging = true := henabled.1
    refine ⟨⟨hquiet, hconsumed, fun hon ↦ absurd hon Bool.false_ne_true, ?_, h.closed, h.cancelled,
      fun hmain ↦ ?_⟩, ?_⟩
    · simp only [effect, State.receiveStop]
      omega
    · obtain ⟨taken, lost, hsum, htaken, hlost⟩ := h.accounted hmain
      have hnone : lost = 0 := hlost.resolve_right fun hoff ↦ absurd (hp.symm.trans hoff.2.1) (by simp)
      have hpos : 0 < s.stops := henabled.2.resolve_right (h.opened hmain)
      refine ⟨taken, 1, ?_, htaken, .inr ⟨rfl, rfl, h.pinged hp⟩⟩
      simp only [effect, State.receiveStop]
      omega
    · simp only [work, effect, State.receiveStop, hp, works]
      simp
  | pingCancelled =>
    have hp : s.pinging = true := henabled.1
    refine ⟨⟨hquiet, hconsumed, fun hon ↦ absurd hon Bool.false_ne_true, hroom, h.closed, h.cancelled,
      fun hmain ↦ (h.accounted hmain).frame rfl rfl rfl (fun _ ↦ rfl) (fun hreads ↦ hreads) fun _ ↦ rfl⟩, ?_⟩
    simp only [work, effect, hp, works]
    simp
  | pingClientGone => cases hcalm
  | pingExpired => cases hcalm
  | mainStopped =>
    have hm : s.main = .waiting := henabled.1
    rw [hm, mainLeft] at hroom
    refine ⟨⟨hquiet, hconsumed, h.pinged, ?_, fun hc ↦ absurd hc (h.opened hm), fun _ ↦ rfl,
      fun hmain ↦ absurd hmain (by simp [effect])⟩, ?_⟩
    · simp only [effect, State.receiveStop, mainLeft]
      omega
    · simp only [work, effect, State.receiveStop, hm, mainWork, works]
      simp
  | timeout => cases hcalm
  | mainClientGone => cases hcalm
  | notify =>
    have hm : s.main = .notifying := henabled.1
    have hmain : s.main ≠ .waiting := by simp [hm]
    rw [hm, mainLeft] at hroom
    refine ⟨⟨hquiet, hconsumed, h.pinged, ?_, ?_, fun _ ↦ h.cancelled hmain,
      fun hmain ↦ absurd hmain (by simp [effect])⟩, ?_⟩
    · simp only [effect, State.safeSendBool, mainLeft]
      split
      · omega
      · omega
    · exact fun hc ↦ absurd ((h.closed hc).symm.trans hm) (by simp)
    · simp only [work, effect, State.safeSendBool, hm, mainWork, works]
      simp
  | join =>
    have hm : s.main = .joining := henabled.1
    have hmain : s.main ≠ .waiting := by simp [hm]
    rw [hm, mainLeft] at hroom
    refine ⟨⟨hquiet, hconsumed, h.pinged, hroom, fun _ ↦ rfl, fun _ ↦ h.cancelled hmain,
      fun hmain ↦ absurd hmain (by simp [effect])⟩, ?_⟩
    simp only [work, effect, hm, mainWork, works]
    simp
  | joinTimeout => cases hcalm
  | clientLeaves => cases hcalm

theorem Live.sendable {s : State} (h : Live stream lines pingEnabled s)
    (hone : s.scanner ≠ .gone ∨ s.handler ≠ .gone ∨ s.main = .notifying) : s.Sendable := by
  have hroom := h.room
  left
  rw [State.stopChanSize]
  have hscanner := scannerLeft_le s.scanner
  have hhandler := handlerLeft_le s.handler
  have hmain := mainLeft_le s.main
  obtain hne | hne | hne := hone
  · rw [scannerLeft_eq hne] at hroom
    omega
  · rw [handlerLeft_eq hne] at hroom
    omega
  · rw [hne, mainLeft] at hroom
    omega


theorem isSending_of_eq {s : State} {data : Text} (h : s.scanner = .sending data) : s.isSending = true := by
  rw [State.isSending, h]

/-- A step that is due: calm, and not just another ping. -/
def Due (s : State) : Prop := ∃ event, Enabled s event ∧ calm event = true ∧ works event = true

/-- A step of a handler that still receives. -/
theorem due_of_receiving {s : State} (hr : s.handler = .receiving) (hleft : Left s) : Due s := by
  by_cases hchan : s.dataChan = []
  · exact ⟨.drained, ⟨hr, hchan, hleft⟩, rfl, rfl⟩
  · exact ⟨.handle, ⟨hr, hchan⟩, rfl, rfl⟩

/-- A scanner that waits to hand on a chunk waits for a handler that goes on, unless its message is lost. -/
theorem Live.due_sending {s : State} (h : Live stream lines pingEnabled s) (hm : s.main = .waiting)
    (hstops : s.stops = 0) {data : Text} (hs : s.scanner = .sending data) :
    Due s ∨ pingEnabled = true ∧ StopsEarly stream.dataHandler lines := by
  have hsending := isSending_of_eq hs
  by_cases hlength : s.dataChan.length < State.dataChanSize
  · exact .inl ⟨.send, ⟨hsending, hlength⟩, rfl, rfl⟩
  · cases hr : s.handler with
    | receiving =>
      have hchan : s.dataChan ≠ [] := by
        intro hnil
        rw [hnil] at hlength
        exact hlength (by decide)
      exact .inl ⟨.handle, ⟨hr, hchan⟩, rfl, rfl⟩
    | signalling => exact .inl ⟨.handlerSignal, ⟨hr, h.sendable (.inr (.inl (by simp [hr])))⟩, rfl, rfl⟩
    | gone =>
      right
      obtain ⟨taken, lost, hsum, htaken, hlost⟩ := h.accounted hm
      have hnone : taken = 0 := htaken.resolve_right fun hone ↦ hone.2.2.2 (.inr hsending)
      rw [hstops, hnone, scannerLeft_eq (by simp [hs]), hr, handlerLeft] at hsum
      obtain ⟨-, -, hon⟩ := hlost.resolve_left (by omega)
      have hstopped := (h.quiet.left (by simp [hr])).resolve_right fun hor ↦
          not_left_of_isSending hsending hor.2
      exact ⟨hon, h.consumed.stopsEarly (.inr hsending) hstopped (.inr (by simp [inHand, hs]))⟩

/-- A scanner that is gone has left its message, as has the handler; one of the two can be taken by the
scanner and one by the pings. -/
theorem Live.due_gone {s : State} (h : Live stream lines pingEnabled s) (hm : s.main = .waiting)
    (hstops : s.stops = 0)
    (hs : s.scanner = .gone) : Due s ∨ pingEnabled = true ∧ StopsEarly stream.dataHandler lines := by
  cases hr : s.handler with
  | receiving => exact .inl (due_of_receiving hr (.inr hs))
  | signalling => exact .inl ⟨.handlerSignal, ⟨hr, h.sendable (.inr (.inl (by simp [hr])))⟩, rfl, rfl⟩
  | gone =>
    right
    obtain ⟨taken, lost, hsum, htaken, hlost⟩ := h.accounted hm
    rw [hstops, hs, hr, scannerLeft, handlerLeft] at hsum
    obtain rfl | ⟨rfl, -, hearly, -⟩ := htaken
    · exact absurd (hlost.resolve_left (by omega)).1 (by omega)
    · obtain ⟨-, -, hon⟩ := hlost.resolve_left (by omega)
      exact ⟨hon, hearly⟩

theorem Live.due_waiting {s : State} (h : Live stream lines pingEnabled s) (hm : s.main = .waiting) :
    Due s ∨ pingEnabled = true ∧ StopsEarly stream.dataHandler lines := by
  obtain hstops | hpos := Nat.eq_zero_or_pos s.stops
  · have hstopping : ¬ s.Stopping := fun hor ↦ hor.elim (by omega) (h.opened hm)
    cases hs : s.scanner with
    | scanning =>
      left
      by_cases hlines : s.lines = []
      · exact ⟨.scanEnd, ⟨hs, hlines⟩, rfl, rfl⟩
      · cases hcancelled : s.cancelled with
        | true => exact ⟨.scanCancelled, ⟨hs, hlines, hcancelled⟩, rfl, rfl⟩
        | false => exact ⟨.scan, ⟨hs, hlines, hstopping, hcancelled, h.quiet.present⟩, rfl, rfl⟩
    | sending data => exact h.due_sending hm hstops hs
    | closing => exact .inl ⟨.close, hs, rfl, rfl⟩
    | signalling => exact .inl ⟨.scannerSignal, ⟨hs, h.sendable (.inl (by simp [hs]))⟩, rfl, rfl⟩
    | gone => exact h.due_gone hm hstops hs
  · exact .inl ⟨.mainStopped, ⟨hm, .inl hpos⟩, rfl, rfl⟩

/-- Once the goroutines are told to end, each of them can. -/
theorem Live.due_joining {s : State} (h : Live stream lines pingEnabled s) (hm : s.main = .joining) :
    Due s := by
  have hcancelled := h.cancelled (by simp [hm])
  by_cases hleft : Left s
  · by_cases hr : s.handler = .receiving
    · exact due_of_receiving hr hleft
    · cases hp : s.pinging with
      | true => exact ⟨.pingCancelled, ⟨hp, hcancelled⟩, rfl, rfl⟩
      | false => exact ⟨.join, ⟨hm, hleft, hr, hp⟩, rfl, rfl⟩
  · cases hs : s.scanner with
    | scanning =>
      by_cases hlines : s.lines = []
      · exact ⟨.scanEnd, ⟨hs, hlines⟩, rfl, rfl⟩
      · exact ⟨.scanCancelled, ⟨hs, hlines, hcancelled⟩, rfl, rfl⟩
    | sending data => exact ⟨.sendCancelled, ⟨isSending_of_eq hs, hcancelled⟩, rfl, rfl⟩
    | closing => exact ⟨.close, hs, rfl, rfl⟩
    | signalling => exact absurd (.inl hs) hleft
    | gone => exact absurd (.inr hs) hleft

theorem Live.due {s : State} (h : Live stream lines pingEnabled s) :
    s.main = .returned ∨ Due s ∨ pingEnabled = true ∧ StopsEarly stream.dataHandler lines := by
  cases hm : s.main with
  | waiting => exact .inr (h.due_waiting hm)
  | notifying => exact .inr (.inl ⟨.notify, ⟨hm, h.sendable (.inr (.inr hm))⟩, rfl, rfl⟩)
  | joining => exact .inr (.inl (h.due_joining hm))
  | returned => exact .inl rfl


section Stuck

variable {stream : Stream}

/-- A step that is neither a disturbance nor forbidden. -/
def Calmly (s : State) (event : Event) : Prop := Enabled s event ∧ calm event = true

/-- Everything that has been read is delivered, and the stream goes on with its pings. -/
structure Ready (delivered lines : List Text) (s : State) : Prop where
  lines : s.lines = lines
  scanner : s.scanner = .scanning
  dataChan : s.dataChan = []
  handler : s.handler = .receiving
  delivered : s.delivered = delivered
  pinging : s.pinging = true
  main : s.main = .waiting
  stops : s.stops = 0
  stopClosed : s.stopClosed = false
  cancelled : s.cancelled = false
  clientGone : s.clientGone = false

theorem Ready.enabled_scan {delivered lines : List Text} {line : Text} {s : State}
    (h : Ready delivered (line :: lines) s) : Calmly s .scan := by
  refine ⟨⟨h.scanner, by simp [h.lines], ?_, h.cancelled, h.clientGone⟩, rfl⟩
  rw [State.Stopping, h.stops, h.stopClosed]
  simp

theorem Ready.skip {delivered lines : List Text} {line : Text} {s : State}
    (h : Ready delivered (line :: lines) s) (hcut : cut line = .skipped) :
    Ready delivered lines (effect stream s .scan) := by
  have heffect : effect stream s .scan = { s with lines := lines } := by
    rw [effect, h.lines]
    dsimp only
    rw [State.scanned, hcut]
  rw [heffect]
  exact ⟨rfl, h.scanner, h.dataChan, h.handler, h.delivered, h.pinging, h.main, h.stops, h.stopClosed,
    h.cancelled,
    h.clientGone⟩

/-- The state in which a payload has been handed to the handler. -/
def handedOver (s : State) (data : Text) (lines : List Text) : State :=
  { s with
    lines := lines
    dataChan := [data]
    receivedResponseCount := s.receivedResponseCount + 1 }

theorem Ready.hand (stream : Stream) {delivered lines : List Text} {line data : Text} {s : State}
    (h : Ready delivered (line :: lines) s) (hcut : cut line = .payload data) :
    Along (effect stream) Calmly s [.scan, .send] ∧
      run (effect stream) s [.scan, .send] = handedOver s data lines := by
  have hscan : effect stream s .scan = { s with
      lines := lines
      scanner := .sending data
      receivedResponseCount := s.receivedResponseCount + 1 } := by
    rw [effect, h.lines]
    dsimp only
    rw [State.scanned, hcut]
  rw [along_cons, along_cons, run_cons, run_cons, hscan]
  refine ⟨⟨h.enabled_scan, ⟨⟨rfl, ?_⟩, rfl⟩, trivial⟩, ?_⟩
  · rw [h.dataChan]
    decide
  · rw [run_nil, handedOver]
    simp only [effect, h.dataChan, List.nil_append, h.scanner]

theorem Ready.deliver {delivered lines : List Text} {line data : Text} {s : State}
    (h : Ready delivered (line :: lines) s) (hcut : cut line = .payload data)
    (hverdict : (stream.dataHandler delivered data).verdict = .next) :
    Along (effect stream) Calmly s [.scan, .send, .handle] ∧
      Ready (delivered ++ [data]) lines (run (effect stream) s [.scan, .send, .handle]) := by
  obtain ⟨halong, hrun⟩ := h.hand stream hcut
  have hsplit : [Event.scan, .send, .handle] = [.scan, .send] ++ [.handle] := rfl
  rw [hsplit, along_append, run_append, hrun]
  refine ⟨⟨halong, ⟨⟨h.handler, List.cons_ne_nil data []⟩, rfl⟩, trivial⟩, ?_⟩
  rw [run_cons, run_nil]
  refine ⟨rfl, h.scanner, rfl, ?_, ?_, h.pinging, h.main, h.stops, h.stopClosed, h.cancelled, h.clientGone⟩
  · simp only [effect, handedOver, State.handled, h.delivered, hverdict, if_true]
  · simp only [effect, handedOver, State.handled, h.delivered]

/-- A stream can come to any of its lines with all before it delivered, as long as its handler goes on. -/
theorem Ready.reach {first rest : List Text} {delivered : List Text} {s : State}
    (h : Ready delivered (first ++ rest) s) (hmarked : marked first = false)
    (hgoes : GoesOn stream.dataHandler delivered (payloads first)) :
    ∃ trace, Along (effect stream) Calmly s trace ∧
      Ready (delivered ++ payloads first) rest (run (effect stream) s trace) := by
  induction first generalizing delivered s with
  | nil =>
    refine ⟨[], trivial, ?_⟩
    rw [payloads, List.append_nil]
    exact h
  | cons line first ih =>
    rw [marked_cons] at hmarked
    rw [payloads] at hgoes ⊢
    cases hcut : cut line with
    | skipped =>
      rw [hcut] at hmarked hgoes
      obtain ⟨trace, halong, hready⟩ := ih (h.skip hcut) hmarked hgoes
      exact ⟨.scan :: trace, ⟨h.enabled_scan, halong⟩, hready⟩
    | payload data =>
      rw [hcut] at hmarked hgoes
      obtain ⟨hdeliver, hnext⟩ := h.deliver hcut hgoes.1
      obtain ⟨trace, halong, hready⟩ := ih hnext hmarked hgoes.2
      refine ⟨[.scan, .send, .handle] ++ trace, (along_append _ _ _).mpr ⟨hdeliver, halong⟩, ?_⟩
      rw [run_append]
      rw [List.append_assoc] at hready
      exact hready
    | done =>
      rw [hcut] at hmarked
      cases hmarked

/-- The stream waits for a message that nobody will leave any more. -/
structure Lost (s : State) : Prop where
  main : s.main = .waiting
  scanner : s.scanner = .gone
  handler : s.handler = .gone
  pinging : s.pinging = false
  stops : s.stops = 0
  stopClosed : s.stopClosed = false
  clientGone : s.clientGone = false

theorem Lost.not_due {s : State} (h : Lost s) : ¬ Due s := by
  obtain ⟨hmain, hscanner, hhandler, hpinging, hstops, hclosed, hclient⟩ := h
  intro ⟨event, henabled, hcalm, _⟩
  have hstopping : ¬ s.Stopping := by
    rw [State.Stopping, hstops, hclosed]
    simp
  cases event <;> simp_all [Enabled, calm, State.isSending]

theorem effect_handle (stream : Stream) {s : State} {data : Text} {rest : List Text}
    (h : s.dataChan = data :: rest) : effect stream s .handle = s.handled stream.dataHandler data rest := by
  rw [effect, h]

theorem handled_of_stop {dataHandler : DataHandler} (s : State) {data : Text} (rest : List Text)
    (h : (dataHandler s.delivered data).verdict ≠ .next) :
    s.handled dataHandler data rest =
      { s with
        dataChan := rest
        delivered := s.delivered ++ [data]
        status := (dataHandler s.delivered data).record s.status
        handler := .signalling } := by
  simp only [State.handled, if_neg h]

/-- The handler stops, the scanner takes its message and the pings take the scanner's. -/
theorem Ready.lose {delivered rest : List Text} {line next data : Text} {s : State}
    (h : Ready delivered (line :: next :: rest) s) (hcut : cut line = .payload data)
    (hverdict : (stream.dataHandler delivered data).verdict ≠ .next) :
    ∃ trace, Along (effect stream) Calmly s trace ∧ Lost (run (effect stream) s trace) := by
  obtain ⟨halong, hrun⟩ := h.hand stream hcut
  have htaken : Along (effect stream) Calmly (handedOver s data (next :: rest))
        [.handle, .handlerSignal, .scanStopped, .close, .scannerSignal, .pingStopped] ∧
      Lost (run (effect stream) (handedOver s data (next :: rest))
        [.handle, .handlerSignal, .scanStopped, .close, .scannerSignal, .pingStopped]) := by
    have hreaction : (stream.dataHandler s.delivered data).verdict ≠ .next := h.delivered ▸ hverdict
    have hhandle := handled_of_stop (handedOver s data (next :: rest)) [] hreaction
    rw [← effect_handle stream rfl] at hhandle
    rw [along_cons, run_cons, hhandle]
    refine ⟨⟨⟨⟨h.handler, List.cons_ne_nil data []⟩, rfl⟩, ?_⟩, ?_⟩
    · simp [Calmly, Enabled, calm, effect, handedOver, State.Sendable, State.Stopping, State.safeSendBool,
        State.receiveStop, State.stopChanSize, h.scanner, h.stops, h.stopClosed, h.pinging]
    · refine ⟨h.main, rfl, rfl, rfl, ?_, h.stopClosed, h.clientGone⟩
      simp [effect, handedOver, State.safeSendBool, State.receiveStop, h.stops, h.stopClosed]
  refine ⟨[.scan, .send] ++ [.handle, .handlerSignal, .scanStopped, .close, .scannerSignal, .pingStopped],
    (along_append _ _ _).mpr ⟨halong, ?_⟩, ?_⟩
  · rw [hrun]
    exact htaken.1
  · rw [run_append, hrun]
    exact htaken.2

end Stuck

/-- A calm stream takes at most four steps a line besides its pings, and as long as it has not returned a
step is due; but not if there are pings and the handler stops before the last line: then they can take the
message that the stream waits for, which is left to its timeout. -/
theorem stream_returns (stream : Stream) (lines : List Text) (pingEnabled : Bool) :
    (∀ trace, Along (effect stream) Calmly (start lines pingEnabled) trace →
      trace.countP works ≤ 4 * lines.length + 9) ∧
    ((∀ trace, Along (effect stream) Calmly (start lines pingEnabled) trace →
        (run (effect stream) (start lines pingEnabled) trace).main = .returned ∨
          Due (run (effect stream) (start lines pingEnabled) trace)) ↔
      ¬ (pingEnabled = true ∧ StopsEarly stream.dataHandler lines)) := by
  have hlive : ∀ trace, Along (effect stream) Calmly (start lines pingEnabled) trace →
      Live stream lines pingEnabled (run (effect stream) (start lines pingEnabled) trace) ∧
        work (run (effect stream) (start lines pingEnabled) trace) + trace.countP works ≤
          work (start lines pingEnabled) := by
    intro trace h
    exact h.measured (Live stream lines pingEnabled) work works live_effect (live_start lines pingEnabled)
  refine ⟨?_, ?_, ?_⟩
  · intro trace h
    have hlength := (hlive trace h).2
    have hwork : work (start lines pingEnabled) = 4 * lines.length + 8 + pingEnabled.toNat := rfl
    have hping := pingEnabled.toNat_le
    omega
  · intro hreturns ⟨hping, first, line, rest, data, hlines, hrest, hmarked, hcut, hgoes, hverdict⟩
    obtain ⟨next, rest, rfl⟩ := List.exists_cons_of_ne_nil hrest
    have hready : Ready [] (first ++ line :: next :: rest) (start lines pingEnabled) :=
      ⟨hlines, rfl, rfl, rfl, rfl, hping, rfl, rfl, rfl, rfl, rfl⟩
    obtain ⟨before, hbefore, hready⟩ := hready.reach hmarked hgoes
    obtain ⟨trace, htrace, hlost⟩ := hready.lose hcut hverdict
    have halong := (along_append _ before trace).mpr ⟨hbefore, htrace⟩
    rw [← run_append] at hlost
    obtain hreturned | hdue := hreturns (before ++ trace) halong
    · exact absurd (hlost.main.symm.trans hreturned) (by simp)
    · exact hlost.not_due hdue
  · intro hnot trace h
    obtain hreturned | hdue | hlost := (hlive trace h).1.due
    · exact .inl hreturned
    · exact .inr hdue
    · exact absurd hlost hnot

end AllAiTools.NewApi.Relay.StreamReturns
