import AllAiTools.NewApi.Relay.OllamaStream

namespace AllAiTools.NewApi.Relay.StreamScanner

open ChatViaResponses (Text trimSpace)
open OllamaStream (byteSize)

section Status

inductive StreamEndReason
  | done
  | timeout
  | clientGone
  | scannerErr
  | handlerStop
  | eof
  | panic
  | pingFail
  deriving DecidableEq

def maxStreamErrorEntries : ℕ := 20

structure StreamStatus where
  endReason : Option StreamEndReason := none
  errors : List Text := []
  errorCount : ℕ := 0

namespace StreamStatus

/-- Only the first reason counts. -/
def setEndReason (status : StreamStatus) (reason : StreamEndReason) : StreamStatus :=
  { status with endReason := some (status.endReason.getD reason) }

def recordError (status : StreamStatus) (msg : Text) : StreamStatus :=
  { status with
    errorCount := status.errorCount + 1
    errors :=
      if status.errors.length < maxStreamErrorEntries then status.errors ++ [msg] else status.errors }

end StreamStatus

end Status

section Lines

/-- What the scanner makes of a line. -/
inductive Cut
  | skipped
  | payload (data : Text)
  | done
  deriving DecidableEq

def cut (line : Text) : Cut :=
  if byteSize line < 6 then .skipped
  else if ¬ "data:".toList <+: line ∧ ¬ "[DONE]".toList <+: line then .skipped
  else
    let data := trimSpace (line.drop 5)
    if data = [] then .skipped
    else if "[DONE]".toList <+: data then .done
    else .payload data

end Lines

section Handler

/-- How a call of the data handler ends: the stream goes on, or `Stop` or `Done` was called. -/
inductive Verdict
  | next
  | stop
  | done
  deriving DecidableEq

/-- What a call of the data handler does with its `StreamResult`. -/
structure Reaction where
  errors : List Text := []
  verdict : Verdict := .next

/-- A data handler, by what it does with a chunk after those it was given before. -/
abbrev DataHandler := List Text → Text → Reaction

def Reaction.record (reaction : Reaction) (status : StreamStatus) : StreamStatus :=
  let status := reaction.errors.foldl StreamStatus.recordError status
  match reaction.verdict with
  | .next => status
  | .stop => status.setEndReason .handlerStop
  | .done => status.setEndReason .done

end Handler

section System

/-- Where the scanner is: in its loop, handing on a chunk, or leaving. -/
inductive ScannerAt
  | scanning
  | sending (data : Text)
  | closing
  | signalling
  | gone
  deriving DecidableEq

inductive HandlerAt
  | receiving
  | signalling
  | gone
  deriving DecidableEq

inductive MainAt
  | waiting
  | notifying
  | joining
  | returned
  deriving DecidableEq

/-- The goroutines of a stream with their channels. `stops` counts the messages in `stopChan`. -/
structure State where
  lines : List Text
  scanner : ScannerAt := .scanning
  dataChan : List Text := []
  handler : HandlerAt := .receiving
  delivered : List Text := []
  pinging : Bool
  main : MainAt := .waiting
  stops : ℕ := 0
  stopClosed : Bool := false
  cancelled : Bool := false
  clientGone : Bool := false
  receivedResponseCount : ℕ := 0
  status : StreamStatus := {}

/-- A stream: its handler, and whether the scanner ends with an error. -/
structure Stream where
  dataHandler : DataHandler
  scannerErr : Bool

/-- The steps of the goroutines, of the timers and of the client. -/
inductive Event
  | scan
  | scanStopped
  | scanCancelled
  | scanClientGone
  | scanEnd
  | scanBroken
  | send
  | sendStopped
  | sendCancelled
  | close
  | scannerSignal
  | handle
  | drained
  | handlerPanic
  | handlerSignal
  | ping
  | pingFail
  | pingStopped
  | pingCancelled
  | pingClientGone
  | pingExpired
  | mainStopped
  | timeout
  | mainClientGone
  | notify
  | join
  | joinTimeout
  | clientLeaves
  deriving DecidableEq

namespace State

variable (s : State)

def dataChanSize : ℕ := 10

def stopChanSize : ℕ := 3

/-- A message from `stopChan`, or its end, can be received. -/
def Stopping : Prop := 0 < s.stops ∨ s.stopClosed = true

instance : Decidable s.Stopping := inferInstanceAs (Decidable (0 < s.stops ∨ s.stopClosed = true))

/-- `SafeSendBool` does not block: there is room, or the channel is closed. -/
def Sendable : Prop := s.stops < stopChanSize ∨ s.stopClosed = true

instance : Decidable s.Sendable := inferInstanceAs (Decidable (s.stops < stopChanSize ∨ s.stopClosed = true))

def receiveStop : State := { s with stops := s.stops - 1 }

def safeSendBool : State := { s with stops := if s.stopClosed then s.stops else s.stops + 1 }

def isSending : Bool :=
  match s.scanner with
  | .sending _ => true
  | _ => false

def setEndReason (reason : StreamEndReason) : State := { s with status := s.status.setEndReason reason }

/-- The scanner's next line. -/
def scanned (line : Text) (lines : List Text) : State :=
  match cut line with
  | .skipped => { s with lines := lines }
  | .payload data =>
    { s with
      lines := lines
      scanner := .sending data
      receivedResponseCount := s.receivedResponseCount + 1 }
  | .done => { s.setEndReason .done with lines := lines, scanner := .closing }

/-- The handler's next chunk, handled under the mutex that a ping takes as well. -/
def handled (dataHandler : DataHandler) (data : Text) (rest : List Text) : State :=
  let reaction := dataHandler s.delivered data
  { s with
    dataChan := rest
    delivered := s.delivered ++ [data]
    status := reaction.record s.status
    handler := if reaction.verdict = .next then .receiving else .signalling }

end State

/-- Which step may be taken. -/
def Enabled (s : State) : Event → Prop
  | .scan => s.scanner = .scanning ∧ s.lines ≠ [] ∧ ¬ s.Stopping ∧ s.cancelled = false ∧ s.clientGone = false
  | .scanStopped => s.scanner = .scanning ∧ s.lines ≠ [] ∧ s.Stopping
  | .scanCancelled => s.scanner = .scanning ∧ s.lines ≠ [] ∧ s.cancelled = true
  | .scanClientGone => s.scanner = .scanning ∧ s.lines ≠ [] ∧ s.clientGone = true
  | .scanEnd => s.scanner = .scanning ∧ s.lines = []
  | .scanBroken => s.scanner = .scanning ∧ s.main = .returned
  | .send => s.isSending = true ∧ s.dataChan.length < State.dataChanSize
  | .sendStopped => s.isSending = true ∧ s.Stopping
  | .sendCancelled => s.isSending = true ∧ s.cancelled = true
  | .close => s.scanner = .closing
  | .scannerSignal => s.scanner = .signalling ∧ s.Sendable
  | .handle => s.handler = .receiving ∧ s.dataChan ≠ []
  | .drained => s.handler = .receiving ∧ s.dataChan = [] ∧ (s.scanner = .signalling ∨ s.scanner = .gone)
  | .handlerPanic => s.handler = .receiving ∧ s.dataChan ≠ []
  | .handlerSignal => s.handler = .signalling ∧ s.Sendable
  | .ping => s.pinging = true
  | .pingFail => s.pinging = true
  | .pingStopped => s.pinging = true ∧ s.Stopping
  | .pingCancelled => s.pinging = true ∧ s.cancelled = true
  | .pingClientGone => s.pinging = true ∧ s.clientGone = true
  | .pingExpired => s.pinging = true
  | .mainStopped => s.main = .waiting ∧ s.Stopping
  | .timeout => s.main = .waiting
  | .mainClientGone => s.main = .waiting ∧ s.clientGone = true
  | .notify => s.main = .notifying ∧ s.Sendable
  | .join => s.main = .joining ∧ (s.scanner = .signalling ∨ s.scanner = .gone) ∧ s.handler ≠ .receiving ∧
      s.pinging = false
  | .joinTimeout => s.main = .joining
  | .clientLeaves => s.clientGone = false

instance (s : State) (event : Event) : Decidable (Enabled s event) := by
  cases event <;> unfold Enabled <;> infer_instance

/-- What a step does. -/
def effect (stream : Stream) (s : State) : Event → State
  | .scan =>
    match s.lines with
    | [] => s
    | line :: lines => s.scanned line lines
  | .scanStopped => { s.receiveStop with scanner := .closing }
  | .scanCancelled => { s with scanner := .closing }
  | .scanClientGone => { s.setEndReason .clientGone with scanner := .closing }
  | .scanEnd =>
    let s := if stream.scannerErr then s.setEndReason .scannerErr else s
    { s.setEndReason .eof with scanner := .closing }
  | .scanBroken => { s.setEndReason .scannerErr with scanner := .closing }
  | .send =>
    match s.scanner with
    | .sending data => { s with scanner := .scanning, dataChan := s.dataChan ++ [data] }
    | _ => s
  | .sendStopped => { s.receiveStop with scanner := .closing }
  | .sendCancelled => { s with scanner := .closing }
  | .close => { s with scanner := .signalling }
  | .scannerSignal => { s.safeSendBool with scanner := .gone }
  | .handle =>
    match s.dataChan with
    | [] => s
    | data :: rest => s.handled stream.dataHandler data rest
  | .drained => { s with handler := .signalling }
  | .handlerPanic =>
    match s.dataChan with
    | [] => s
    | data :: rest =>
      { s.setEndReason .panic with
        dataChan := rest
        delivered := s.delivered ++ [data]
        handler := .signalling }
  | .handlerSignal => { s.safeSendBool with handler := .gone }
  | .ping => s
  | .pingFail => { s.setEndReason .pingFail with pinging := false }
  | .pingStopped => { s.receiveStop with pinging := false }
  | .pingCancelled => { s with pinging := false }
  | .pingClientGone => { s with pinging := false }
  | .pingExpired => { s with pinging := false }
  | .mainStopped => { s.receiveStop with main := .notifying, cancelled := true }
  | .timeout => { s.setEndReason .timeout with main := .notifying, cancelled := true }
  | .mainClientGone => { s.setEndReason .clientGone with main := .notifying, cancelled := true }
  | .notify => { s.safeSendBool with main := .joining }
  | .join => { s with main := .returned, stopClosed := true }
  | .joinTimeout => { s with main := .returned, stopClosed := true }
  | .clientLeaves => { s with clientGone := true }

/-- `StreamScannerHandler` before any of its goroutines has run. -/
def start (lines : List Text) (pingEnabled : Bool) : State where
  lines := lines
  pinging := pingEnabled

end System

end AllAiTools.NewApi.Relay.StreamScanner
