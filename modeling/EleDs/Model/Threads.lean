/-
The two threads of the client and what is between them.

`thread_communicate_server` receives chunks, puts them into the ring buffer and
releases a semaphore; `thread_parse_recv_data` takes the semaphore, waiting for it if
need be, and gets what it can at once.  A step of the system is one call of one of
them, in any order that their places allow; a put and a get are taken to be atomic, as
the ring buffer itself does no locking.

`received`, `got` and `putFailed` record what happened and are read by nothing.
-/
import EleDs.Model.Client
import EleDs.Model.Ringbuffer

namespace EleDs

open CMem

/-- `CLIENT_RECV_BUFFSIZE`.  It is a multiple of `RT_ALIGN_SIZE`, so all of it is used. -/
def recvBuffSize : Nat := packSize * 10

/-- `RT_SEM_VALUE_MAX`. -/
def semValueMax : Nat := 65535

/-- Where `thread_communicate_server` is. -/
inductive ProducerAt where
  | receiving
  /-- Between its put and its release. -/
  | releasing
deriving DecidableEq, Repr

/-- Where `thread_parse_recv_data` is. -/
inductive ConsumerAt where
  /-- At a packet, or about to take the semaphore. -/
  | running
  /-- Waiting for the semaphore. -/
  | suspended
  /-- Between its take and its get. -/
  | getting
deriving DecidableEq, Repr

structure Sys where
  rb : RtRingbuffer recvBuffSize
  /-- `rb_sem->value`. -/
  sem : Nat
  producer : ProducerAt
  consumer : ConsumerAt
  /-- The chunks `recv` returned. -/
  received : List Bytes
  /-- What the gets handed over. -/
  got : List Bytes
  /-- The branch that logs `rb put failed` was taken. -/
  putFailed : Bool

/-- What a thread does next. -/
inductive Act where
  /-- `recv` returns a chunk, which is put. -/
  | recv (chunk : Packet)
  | release
  | take
  /-- A waiting take gives up. -/
  | timeout
  | get

/-- `rt_sem_release`: a waiting thread gets the semaphore right away; a full one is left
alone. -/
def semRelease (s : Sys) : Sys :=
  if s.consumer = .suspended then { s with consumer := .getting }
  else if s.sem < semValueMax then { s with sem := s.sem + 1 }
  else s

/-- `rt_sem_take`. -/
def semTake (s : Sys) : Sys :=
  if s.sem > 0 then { s with sem := s.sem - 1, consumer := .getting }
  else { s with consumer := .suspended }

/-- The body of the loop in `thread_communicate_server` up to the release. -/
def recvPut (s : Sys) (chunk : Packet) : Sys :=
  let (result, rb) := s.rb.put chunk.data
  let s := { s with rb := rb, received := s.received ++ [chunk.data] }
  if result = 0 then { s with putFailed := true } else { s with producer := .releasing }

/-- `rt_ringbuffer_get(&rb, buffer, CLIENT_RECV_PACKSIZE)`. -/
def getPacket (s : Sys) : Sys :=
  let (data, rb) := s.rb.get packSize
  { s with rb := rb, got := s.got ++ [data], consumer := .running }

/-- One call of one thread, where it is its turn. -/
def Sys.step (s : Sys) : Act → Option Sys
  | .recv chunk => if s.producer = .receiving then some (recvPut s chunk) else none
  | .release =>
      if s.producer = .releasing then some { semRelease s with producer := .receiving } else none
  | .take => if s.consumer = .running then some (semTake s) else none
  | .timeout => if s.consumer = .suspended then some { s with consumer := .running } else none
  | .get => if s.consumer = .getting then some (getPacket s) else none

/-- Both threads at their loops, the buffer empty and the semaphore at 0. -/
def Sys.init : Sys where
  rb := RtRingbuffer.init recvBuffSize (by decide)
  sem := 0
  producer := .receiving
  consumer := .running
  received := []
  got := []
  putFailed := false

end EleDs
