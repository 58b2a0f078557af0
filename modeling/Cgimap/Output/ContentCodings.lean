/- path: Cgimap/Output/ContentCodings
   generality: I
   source: src/zlib.cpp, src/brotli.cpp, include/cgimap/output_buffer.hpp, include/cgimap/http.hpp,
     src/process_request.cpp
   digest: What reaches a client through the output buffers of the content codings. -/

import Cgimap.Http.PayloadReading

/-!
The compressors are parameters. What their documentation promises is the structure
`Compresses`, which also says what a client makes of the bytes that it gets.
-/

set_option autoImplicit false
set_option relaxedAutoImplicit false

namespace Cgimap.Output.ContentCodings

open Cgimap.Library.StreamCoder
open Cgimap.Http.Negotiation (Encoding)
open Cgimap.Http.PayloadReading (Bytes)
open Filter (atTop)

section Buffers

/-- The functions of zlib that compress. The status tells `Z_OK`, `Z_STREAM_END` and the other
codes apart; `deflateEnd` tells whether it returns `Z_OK`. -/
structure Deflater where
  Stream : Type
  deflateInit2 : Nat → Stream
  deflate : Stream → Operation → Bytes → Nat → Call Stream UInt8 Progress
  deflateEnd : Stream → Bool

structure BrotliEncoder where
  State : Type
  createInstance : State
  compressStream : State → Operation → Bytes → Nat → Call State UInt8 Bool
  isFinished : State → Bool

/-- The libraries that the output buffers use. -/
structure Compressors where
  zlib : Deflater
  brotli : BrotliEncoder

/-- `zlib_output_buffer`: the stream, `outbuf` and what was written to `out`. -/
structure ZlibBuffer (z : Deflater) where
  window : Window z.Stream UInt8
  closed : Bool

/-- `brotli_output_buffer`; its window is empty between two calls. -/
structure BrotliBuffer (e : BrotliEncoder) where
  window : Window e.State UInt8
  flushed : Bool
  closed : Bool

namespace ZlibBuffer

variable {z : Deflater} (fuel : Nat) (b : ZlibBuffer z)

def size : Nat := 4096

def start (z : Deflater) (windowBits : Nat) : ZlibBuffer z := ⟨⟨z.deflateInit2 windowBits, [], []⟩, false⟩

def flush : Int × ZlibBuffer z := (0, { b with window := b.window.flush })

def write (data : Bytes) : Option (Int × ZlibBuffer z) :=
  if data = [] then some (0, b)
  else
    match pump (fun s => z.deflate s .process) size (fun status _ rest => status = .more && rest ≠ [])
        fuel b.window data with
    | none => none
    | some (w, _, status) =>
        if status ≠ .more then some (-1, { b with window := w })
        else some (data.length, { b with window := if w.held.length = size then w.flush else w })

def close : Option (Int × ZlibBuffer z) :=
  match pump (fun s => z.deflate s .finish) size (fun status _ _ => status = .more) fuel b.window [] with
  | none => none
  | some (w, _, status) =>
      if status ≠ .done then some (-1, { b with window := w })
      else if z.deflateEnd w.stream then some (0, ⟨w.flush, true⟩)
      else some (-1, { b with window := w.flush })

end ZlibBuffer

namespace BrotliBuffer

variable {e : BrotliEncoder} (fuel : Nat) (b : BrotliBuffer e)

def size : Nat := 16384

def start (e : BrotliEncoder) : BrotliBuffer e := ⟨⟨e.createInstance, [], []⟩, false, false⟩

/-- `BrotliEncoderCompressStream`, and what `BrotliEncoderIsFinished` says behind it. -/
def call (e : BrotliEncoder) (s : e.State) (op : Operation) (input : Bytes) (room : Nat) :
    Call e.State UInt8 Progress :=
  let c := e.compressStream s op input room
  { c with status := if c.status = false then .failed else if e.isFinished c.next then .done else .more }

/-- What was put out goes to `out`, unless the last call has failed. -/
def compressed (data : Bytes) :
    Option (Window e.State UInt8 × Bytes × Progress) → Option (Int × BrotliBuffer e)
  | none => none
  | some (w, _, status) =>
      if status = .failed then some (-1, { b with window := { w with held := [] } })
      else some (data.length, { b with window := w.flush })

/-- `compress`. The condition of its loop is checked before the first call, and behind each
one. -/
def compress (data : Bytes) (last : Bool) : Option (Int × BrotliBuffer e) :=
  if last then
    if e.isFinished b.window.stream then some (data.length, b)
    else compressed b data (pump (fun s => call e s .finish) size (fun status _ _ => status = .more)
      fuel b.window data)
  else
    if data = [] then some (data.length, b)
    else compressed b data (pump (fun s => call e s .process) size
      (fun status _ rest => status ≠ .failed && rest ≠ []) fuel b.window data)

def write (data : Bytes) : Option (Int × BrotliBuffer e) := compress fuel b data false

def flush : Option (Int × BrotliBuffer e) :=
  if b.flushed then some (0, b)
  else (compress fuel b [] true).map (fun r => (0, { r.2 with flushed := true }))

def close : Option (Int × BrotliBuffer e) :=
  (if b.flushed then some (0, b) else flush fuel b).map (fun r => (0, { r.2 with closed := true }))

end BrotliBuffer

/-- An `output_buffer` in front of the stream to the client. -/
inductive OutputBuffer (lib : Compressors) where
  | identity (sent : Bytes) (closed : Bool)
  | zlib (b : ZlibBuffer lib.zlib)
  | brotli (b : BrotliBuffer lib.brotli)

def OutputBuffer.sent {lib : Compressors} : OutputBuffer lib → Bytes
  | .identity sent _ => sent
  | .zlib b => b.window.sent
  | .brotli b => b.window.sent

def OutputBuffer.closed {lib : Compressors} : OutputBuffer lib → Bool
  | .identity _ closed => closed
  | .zlib b => b.closed
  | .brotli b => b.closed

def buffer (lib : Compressors) : Encoding → OutputBuffer lib
  | .identity => .identity [] false
  | .deflate => .zlib (.start lib.zlib 15)
  | .gzip => .zlib (.start lib.zlib (15 + 16))
  | .brotli => .brotli (.start lib.brotli)

end Buffers

section Responses

variable {lib : Compressors}

inductive BufferCall where
  | write (data : Bytes)
  | flush
  | close

def OutputBuffer.call (fuel : Nat) : OutputBuffer lib → BufferCall → Option (Int × OutputBuffer lib)
  | .identity sent closed, .write data => some (data.length, .identity (sent ++ data) closed)
  | .identity sent closed, .flush => some (0, .identity sent closed)
  | .identity sent _, .close => some (0, .identity sent true)
  | .zlib b, .write data => (b.write fuel data).map (fun r => (r.1, .zlib r.2))
  | .zlib b, .flush => some (b.flush.1, .zlib b.flush.2)
  | .zlib b, .close => (b.close fuel).map (fun r => (r.1, .zlib r.2))
  | .brotli b, .write data => (b.write fuel data).map (fun r => (r.1, .brotli r.2))
  | .brotli b, .flush => (b.flush fuel).map (fun r => (r.1, .brotli r.2))
  | .brotli b, .close => (b.close fuel).map (fun r => (r.1, .brotli r.2))

def runCalls (fuel : Nat) : List BufferCall → OutputBuffer lib → Option (List Int × OutputBuffer lib)
  | [], b => some ([], b)
  | call :: calls, b => do
      let (code, b) ← b.call fuel call
      let (codes, b) ← runCalls fuel calls b
      some (code :: codes, b)

/-- The calls of `generate_response`: the formatter writes some pieces; unless there was an
exception the buffer is flushed; the destructor of the formatter writes what is still missing,
the end tags of an unfinished document, and closes the buffer. -/
def responseCalls (pieces : List Bytes) (flushed : Bool) (late : List Bytes) : List BufferCall :=
  pieces.map .write ++ ((if flushed then [.flush] else []) ++ (late.map .write ++ [.close]))

/-- What the client can get: brotli is finished by the flush. -/
def delivered (enc : Encoding) (pieces : List Bytes) (flushed : Bool) (late : List Bytes) : Bytes :=
  if enc = .brotli ∧ flushed = true then pieces.flatten else pieces.flatten ++ late.flatten

end Responses

section Contract

/-- What the documentation of the libraries promises, for a client that decodes the codings. -/
structure Compresses (lib : Compressors) where
  decode : Encoding → Bytes → Option Bytes
  identity : ∀ bytes, decode .identity bytes = some bytes
  deflate : Encodes (lib.zlib.deflateInit2 15) lib.zlib.deflate (decode .deflate)
  gzip : Encodes (lib.zlib.deflateInit2 (15 + 16)) lib.zlib.deflate (decode .gzip)
  freed : ∀ s, deflate.Ended s ∨ gzip.Ended s → lib.zlib.deflateEnd s = true
  brotli : Encodes lib.brotli.createInstance (BrotliBuffer.call lib.brotli) (decode .brotli)
  unfinished : ∀ {s x y}, brotli.Opened s x y → lib.brotli.isFinished s = false
  refuses : ∀ {s input room}, brotli.Ended s → input ≠ [] →
    (lib.brotli.compressStream s .process input room).status = false ∧
      (lib.brotli.compressStream s .process input room).out = [] ∧
      brotli.Ended (lib.brotli.compressStream s .process input room).next

end Contract

section Zlib

variable {z : Deflater} {start : z.Stream} {decode : Bytes → Option Bytes}
  (e : Encodes start z.deflate decode) {b : ZlibBuffer z} {x : Bytes}

/-- All that was written is with the stream, and there is room in `outbuf`. -/
structure ZlibWriting (b : ZlibBuffer z) (x : Bytes) : Prop where
  opened : e.Opened b.window.stream x b.window.output
  room : b.window.held.length < ZlibBuffer.size

variable {e}

private theorem zlib_write (writing : ZlibWriting e b x) (data : Bytes) :
    ∃ code b', (∀ᶠ fuel in atTop, b.write fuel data = some (code, b')) ∧ 0 ≤ code ∧
      ZlibWriting e b' (x ++ data) := by
  by_cases none : data = []
  · subst none
    exact ⟨0, b, .of_forall fun fuel => rfl, Int.le_refl 0, by rwa [List.append_nil]⟩
  · obtain ⟨enough, w, run, opened, fits⟩ := e.pump_process
      (fun status _ rest => status = .more && rest ≠ []) (by simp) writing.opened writing.room none
    refine ⟨data.length, { b with window := if w.held.length = ZlibBuffer.size then w.flush else w },
      ?_, Int.natCast_nonneg _, ?_⟩
    · filter_upwards [Filter.eventually_ge_atTop enough] with fuel more
      unfold ZlibBuffer.write
      rw [if_neg none, run fuel more]
      rfl
    · by_cases full : w.held.length = ZlibBuffer.size
      · rw [if_pos full]
        exact ⟨by rw [Window.stream_flush, Window.output_flush]; exact opened,
          show 0 < ZlibBuffer.size by decide⟩
      · rw [if_neg full]
        exact ⟨opened, Nat.lt_of_le_of_ne fits full⟩

private theorem zlib_flush (writing : ZlibWriting e b x) : ZlibWriting e b.flush.2 x := by
  refine ⟨?_, show 0 < ZlibBuffer.size by decide⟩
  change e.Opened b.window.flush.stream x b.window.flush.output
  rw [Window.stream_flush, Window.output_flush]
  exact writing.opened

private theorem zlib_close (freed : ∀ s, e.Ended s → z.deflateEnd s = true)
    (writing : ZlibWriting e b x) :
    ∃ code b', (∀ᶠ fuel in atTop, b.close fuel = some (code, b')) ∧ 0 ≤ code ∧
      b'.closed = true ∧ decode b'.window.sent = some x := by
  obtain ⟨enough, w, run, ended, decoded⟩ := e.pump_finish (fun status _ _ => status = .more)
    (by simp) (by simp) (e.ending_of_opened writing.opened) writing.room
  refine ⟨0, ⟨w.flush, true⟩, ?_, Int.le_refl 0, rfl, decoded⟩
  filter_upwards [Filter.eventually_ge_atTop enough] with fuel more
  unfold ZlibBuffer.close
  rw [run fuel more]
  exact if_pos (freed w.stream ended)

end Zlib

section Brotli

variable {e : BrotliEncoder} {decode : Bytes → Option Bytes}
  (p : Encodes e.createInstance (BrotliBuffer.call e) decode) {b : BrotliBuffer e} {x : Bytes}

/-- All that was written is with the encoder. -/
structure BrotliWriting (b : BrotliBuffer e) (x : Bytes) : Prop where
  opened : p.Opened b.window.stream x b.window.output
  held : b.window.held = []
  unflushed : b.flushed = false

/-- The encoder has come to its end. -/
structure BrotliFlushed (b : BrotliBuffer e) (x : Bytes) : Prop where
  ended : p.Ended b.window.stream
  held : b.window.held = []
  decoded : decode b.window.sent = some x
  flushed : b.flushed = true

variable {p}

private theorem brotli_write (writing : BrotliWriting p b x) (data : Bytes) :
    ∃ code b', (∀ᶠ fuel in atTop, b.write fuel data = some (code, b')) ∧ 0 ≤ code ∧
      BrotliWriting p b' (x ++ data) := by
  by_cases none : data = []
  · subst none
    exact ⟨0, b, .of_forall fun fuel => rfl, Int.le_refl 0, by rwa [List.append_nil]⟩
  · obtain ⟨enough, w, run, opened, -⟩ := p.pump_process
      (fun status _ rest => status ≠ .failed && rest ≠ []) (by simp) writing.opened
      (by rw [writing.held]; decide : b.window.held.length < BrotliBuffer.size) none
    refine ⟨data.length, { b with window := w.flush }, ?_, Int.natCast_nonneg _, ?_, rfl, writing.unflushed⟩
    · filter_upwards [Filter.eventually_ge_atTop enough] with fuel more
      unfold BrotliBuffer.write BrotliBuffer.compress
      rw [if_neg Bool.false_ne_true, if_neg none, run fuel more]
      rfl
    · rw [Window.stream_flush, Window.output_flush]
      exact opened

private theorem brotli_flush (unfinished : ∀ {s x y}, p.Opened s x y → e.isFinished s = false)
    (writing : BrotliWriting p b x) :
    ∃ code b', (∀ᶠ fuel in atTop, b.flush fuel = some (code, b')) ∧ 0 ≤ code ∧
      BrotliFlushed p b' x := by
  obtain ⟨enough, w, run, ended, decoded⟩ := p.pump_finish (fun status _ _ => status = .more)
    (by simp) (by simp) (p.ending_of_opened writing.opened)
    (by rw [writing.held]; decide : b.window.held.length < BrotliBuffer.size)
  refine ⟨0, ⟨w.flush, true, b.closed⟩, ?_, Int.le_refl 0, ended, rfl, decoded, rfl⟩
  filter_upwards [Filter.eventually_ge_atTop enough] with fuel more
  unfold BrotliBuffer.flush BrotliBuffer.compress
  rw [writing.unflushed, if_neg Bool.false_ne_true, if_pos rfl, unfinished writing.opened,
    if_neg Bool.false_ne_true, run fuel more]
  rfl

private theorem brotli_late (refuses : ∀ {s input room}, p.Ended s → input ≠ [] →
      (e.compressStream s .process input room).status = false ∧
        (e.compressStream s .process input room).out = [] ∧
        p.Ended (e.compressStream s .process input room).next)
    (flushed : BrotliFlushed p b x) (data : Bytes) :
    ∃ code b', (∀ᶠ fuel in atTop, b.write fuel data = some (code, b')) ∧ (0 ≤ code ↔ data = []) ∧
      BrotliFlushed p b' x := by
  by_cases none : data = []
  · subst none
    exact ⟨0, b, .of_forall fun fuel => rfl, by simp, flushed⟩
  · obtain ⟨fails, silent, ended⟩ := @refuses _ _ BrotliBuffer.size flushed.ended none
    have status : (BrotliBuffer.call e b.window.stream .process data BrotliBuffer.size).status = .failed :=
      if_pos fails
    refine ⟨-1, { b with window := { b.window with
      stream := (e.compressStream b.window.stream .process data BrotliBuffer.size).next, held := [] } },
      ?_, by simp [none], ended, rfl, flushed.decoded, flushed.flushed⟩
    filter_upwards [Filter.eventually_ge_atTop 1] with fuel more
    obtain ⟨less, rfl⟩ := Nat.exists_eq_add_one_of_ne_zero (Nat.ne_of_gt more)
    unfold BrotliBuffer.write BrotliBuffer.compress
    rw [if_neg Bool.false_ne_true, if_neg none, pump, flushed.held, List.length_nil, Nat.sub_zero]
    dsimp only
    rw [status, if_neg (by simp), BrotliBuffer.compressed, if_pos rfl]
    rfl

private theorem close_of_flushed (flushed : BrotliFlushed p b x) (fuel : Nat) :
    b.close fuel = some (0, { b with closed := true }) := by
  unfold BrotliBuffer.close
  rw [if_pos flushed.flushed]
  rfl

private theorem brotli_close (unfinished : ∀ {s x y}, p.Opened s x y → e.isFinished s = false)
    (writing : BrotliWriting p b x) :
    ∃ b', (∀ᶠ fuel in atTop, b.close fuel = some (0, b')) ∧
      b'.closed = true ∧ decode b'.window.sent = some x := by
  obtain ⟨code, b', done, fine, flushed⟩ := brotli_flush unfinished writing
  refine ⟨{ b' with closed := true }, ?_, rfl, flushed.decoded⟩
  filter_upwards [done] with fuel same
  unfold BrotliBuffer.close
  rw [writing.unflushed, if_neg Bool.false_ne_true, same]
  rfl

end Brotli

section Responses

variable {lib : Compressors} (c : Compresses lib) {enc : Encoding} {b : OutputBuffer lib} {x : Bytes}

/-- The buffer takes more, and `x` has been written. -/
inductive Writing : Encoding → OutputBuffer lib → Bytes → Prop where
  | identity {sent : Bytes} {closed : Bool} : Writing .identity (.identity sent closed) sent
  | deflate {b : ZlibBuffer lib.zlib} {x : Bytes} (writing : ZlibWriting c.deflate b x) :
      Writing .deflate (.zlib b) x
  | gzip {b : ZlibBuffer lib.zlib} {x : Bytes} (writing : ZlibWriting c.gzip b x) :
      Writing .gzip (.zlib b) x
  | brotli {b : BrotliBuffer lib.brotli} {x : Bytes} (writing : BrotliWriting c.brotli b x) :
      Writing .brotli (.brotli b) x

/-- With enough fuel, calls end in a buffer with a property, as their results have it. -/
def Ends (calls : List BufferCall) (b : OutputBuffer lib) (P : List Int → OutputBuffer lib → Prop) :
    Prop :=
  ∃ codes b', (∀ᶠ fuel in atTop, runCalls fuel calls b = some (codes, b')) ∧ P codes b'

variable {c}

private theorem writing_start (c : Compresses lib) (enc : Encoding) : Writing c enc (buffer lib enc) [] := by
  cases enc with
  | identity => exact .identity
  | deflate => exact .deflate ⟨c.deflate.opened_start, show 0 < ZlibBuffer.size by decide⟩
  | gzip => exact .gzip ⟨c.gzip.opened_start, show 0 < ZlibBuffer.size by decide⟩
  | brotli => exact .brotli ⟨c.brotli.opened_start, rfl, rfl⟩

theorem Ends.cons {call : BufferCall} {calls : List BufferCall} {P : List Int → OutputBuffer lib → Prop}
    {Q : Int → OutputBuffer lib → Prop}
    (first : ∃ code b', (∀ᶠ fuel in atTop, b.call fuel call = some (code, b')) ∧ Q code b')
    (rest : ∀ code b', Q code b' → Ends calls b' fun codes => P (code :: codes)) :
    Ends (call :: calls) b P := by
  obtain ⟨code, b', called, holds⟩ := first
  obtain ⟨codes, b'', ran, last⟩ := rest code b' holds
  refine ⟨code :: codes, b'', ?_, last⟩
  filter_upwards [called, ran] with fuel first next
  rw [runCalls, first]
  change (runCalls fuel calls b' >>= _) = _
  rw [next]
  rfl

private theorem eventually_map {A B : Type} {f : Nat → Option (Int × A)} {r : Int × A} (g : A → B)
    (done : ∀ᶠ fuel in atTop, f fuel = some r) :
    ∀ᶠ fuel in atTop, (f fuel).map (fun r => (r.1, g r.2)) = some (r.1, g r.2) := by
  filter_upwards [done] with fuel same
  rw [same]
  rfl

private theorem call_write (writing : Writing c enc b x) (data : Bytes) :
    ∃ code b', (∀ᶠ fuel in atTop, b.call fuel (.write data) = some (code, b')) ∧ 0 ≤ code ∧
      Writing c enc b' (x ++ data) := by
  cases writing with
  | identity =>
      exact ⟨data.length, .identity (x ++ data) _, .of_forall fun fuel => rfl,
        Int.natCast_nonneg _, .identity⟩
  | deflate writing =>
      obtain ⟨code, b', done, fine, next⟩ := zlib_write writing data
      exact ⟨code, .zlib b', eventually_map (@OutputBuffer.zlib lib) done, fine, .deflate next⟩
  | gzip writing =>
      obtain ⟨code, b', done, fine, next⟩ := zlib_write writing data
      exact ⟨code, .zlib b', eventually_map (@OutputBuffer.zlib lib) done, fine, .gzip next⟩
  | brotli writing =>
      obtain ⟨code, b', done, fine, next⟩ := brotli_write writing data
      exact ⟨code, .brotli b', eventually_map (@OutputBuffer.brotli lib) done, fine, .brotli next⟩

private theorem call_flush (writing : Writing c enc b x) :
    ∃ code b', (∀ᶠ fuel in atTop, b.call fuel .flush = some (code, b')) ∧ 0 ≤ code ∧
      if enc = .brotli then ∃ b'', b' = .brotli b'' ∧ BrotliFlushed c.brotli b'' x
      else Writing c enc b' x := by
  cases writing with
  | identity => exact ⟨0, .identity x _, .of_forall fun fuel => rfl, Int.le_refl 0, .identity⟩
  | @deflate b _ writing =>
      exact ⟨0, .zlib b.flush.2, .of_forall fun fuel => rfl, Int.le_refl 0,
        .deflate (zlib_flush writing)⟩
  | @gzip b _ writing =>
      exact ⟨0, .zlib b.flush.2, .of_forall fun fuel => rfl, Int.le_refl 0, .gzip (zlib_flush writing)⟩
  | brotli writing =>
      obtain ⟨code, b', done, fine, flushed⟩ := brotli_flush c.unfinished writing
      exact ⟨code, .brotli b', eventually_map (@OutputBuffer.brotli lib) done, fine, b', rfl, flushed⟩

/-- The client has got this, and nothing else. -/
def Delivered (c : Compresses lib) (enc : Encoding) (x : Bytes) (b : OutputBuffer lib) : Prop :=
  b.closed = true ∧ c.decode enc b.sent = some x

private theorem call_close (writing : Writing c enc b x) :
    ∃ code b', (∀ᶠ fuel in atTop, b.call fuel .close = some (code, b')) ∧ 0 ≤ code ∧
      Delivered c enc x b' := by
  cases writing with
  | identity =>
      exact ⟨0, .identity x true, .of_forall fun fuel => rfl, Int.le_refl 0, rfl, c.identity x⟩
  | deflate writing =>
      obtain ⟨code, b', done, fine, delivered⟩ := zlib_close (fun s ended => c.freed s (.inl ended)) writing
      exact ⟨code, .zlib b', eventually_map (@OutputBuffer.zlib lib) done, fine, delivered⟩
  | gzip writing =>
      obtain ⟨code, b', done, fine, delivered⟩ := zlib_close (fun s ended => c.freed s (.inr ended)) writing
      exact ⟨code, .zlib b', eventually_map (@OutputBuffer.zlib lib) done, fine, delivered⟩
  | brotli writing =>
      obtain ⟨b', done, delivered⟩ := brotli_close c.unfinished writing
      exact ⟨0, .brotli b', eventually_map (@OutputBuffer.brotli lib) done, Int.le_refl 0, delivered⟩

/-- The client has got `x`, and no call has failed exactly if that is all. -/
def Response (c : Compresses lib) (enc : Encoding) (x : Bytes) (all : Prop) (codes : List Int)
    (b : OutputBuffer lib) : Prop := Delivered c enc x b ∧ ((∀ code ∈ codes, 0 ≤ code) ↔ all)

theorem Response.cons {code : Int} {codes : List Int} {P Q : Prop} (response : Response c enc x Q codes b)
    (first : 0 ≤ code ↔ P) : Response c enc x (P ∧ Q) (code :: codes) b :=
  ⟨response.1, by rw [List.forall_mem_cons, first, response.2]⟩

private theorem ends_close {all : Prop} (holds : all)
    (closes : ∃ code b', (∀ᶠ fuel in atTop, b.call fuel .close = some (code, b')) ∧ 0 ≤ code ∧
      Delivered c enc x b') : Ends [.close] b (Response c enc x all) := by
  refine .cons closes fun code b' ⟨fine, delivered⟩ => ⟨[], b', .of_forall fun _ => rfl, delivered, ?_⟩
  simp only [List.mem_singleton, forall_eq, fine, holds]

private theorem ends_writing (writing : Writing c enc b x) (pieces : List Bytes)
    {calls : List BufferCall} {y : Bytes} {all : Prop}
    (rest : ∀ b', Writing c enc b' (x ++ pieces.flatten) → Ends calls b' (Response c enc y all)) :
    Ends (pieces.map .write ++ calls) b (Response c enc y all) := by
  induction pieces generalizing b x with
  | nil =>
      rw [List.flatten_nil, List.append_nil] at rest
      exact rest b writing
  | cons piece pieces ih =>
      have whole : x ++ (piece ++ pieces.flatten) = x ++ piece ++ pieces.flatten :=
        (List.append_assoc _ _ _).symm
      rw [List.flatten_cons, whole] at rest
      refine .cons (call_write writing piece) fun code b' ⟨fine, next⟩ => ?_
      obtain ⟨codes, b'', ran, response⟩ := ih next rest
      have first : 0 ≤ code ↔ True := iff_true_intro fine
      exact ⟨codes, b'', ran, by simpa only [true_and] using response.cons first⟩

private theorem ends_written (writing : Writing c enc b x) (late : List Bytes) :
    Ends (late.map .write ++ [.close]) b (Response c enc (x ++ late.flatten) True) :=
  ends_writing writing late fun _ writing => ends_close trivial (call_close writing)

private theorem ends_flushed {b : BrotliBuffer lib.brotli} (flushed : BrotliFlushed c.brotli b x)
    (late : List Bytes) :
    Ends (late.map .write ++ [.close]) (.brotli b) (Response c .brotli x (late.flatten = [])) := by
  induction late generalizing b with
  | nil =>
      exact ends_close rfl ⟨0, .brotli { b with closed := true },
        eventually_map (@OutputBuffer.brotli lib) (.of_forall fun fuel => close_of_flushed flushed fuel),
        Int.le_refl 0, rfl, flushed.decoded⟩
  | cons data late ih =>
      obtain ⟨code, b', done, fails, next⟩ := brotli_late c.refuses flushed data
      refine .cons (Q := fun code b' => (0 ≤ code ↔ data = []) ∧ ∃ b'', b' = .brotli b'' ∧
        BrotliFlushed c.brotli b'' x) ⟨code, .brotli b', eventually_map (@OutputBuffer.brotli lib) done,
          fails, b', rfl, next⟩ ?_
      rintro code _ ⟨first, b'', rfl, next⟩
      obtain ⟨codes, b₃, ran, response⟩ := ih next
      rw [List.flatten_cons, List.append_eq_nil_iff]
      exact ⟨codes, b₃, ran, response.cons first⟩

/-- Whatever the coding and the pieces that a response is written in, the calls of the output
buffer end, the stream is closed, and the client decodes what it gets to the response, without
what is written behind the flush of brotli. A call fails exactly if something gets lost. -/
theorem response_delivered (c : Compresses lib) (enc : Encoding) (pieces : List Bytes)
    (flushed : Bool) (late : List Bytes) :
    ∃ enough codes b, (∀ fuel, enough ≤ fuel →
        runCalls fuel (responseCalls pieces flushed late) (buffer lib enc) = some (codes, b)) ∧
      b.closed = true ∧ c.decode enc b.sent = some (delivered enc pieces flushed late) ∧
      ((∀ code ∈ codes, 0 ≤ code) ↔
        delivered enc pieces flushed late = pieces.flatten ++ late.flatten) := by
  have ends : Ends (responseCalls pieces flushed late) (buffer lib enc)
      (Response c enc (delivered enc pieces flushed late)
        (delivered enc pieces flushed late = pieces.flatten ++ late.flatten)) := by
    refine ends_writing (writing_start c enc) pieces fun b writing => ?_
    rw [List.nil_append] at writing
    unfold delivered
    cases flushed with
    | false =>
        simp only [Bool.false_eq_true, and_false, if_false]
        exact ends_written writing late
    | true =>
        refine .cons (call_flush writing) fun code b' ⟨fine, next⟩ => ?_
        have first : 0 ≤ code ↔ True := iff_true_intro fine
        by_cases brotli : enc = .brotli
        · subst brotli
          rw [if_pos rfl] at next
          obtain ⟨b'', rfl, flushed⟩ := next
          obtain ⟨codes, b₃, ran, response⟩ := ends_flushed flushed late
          have all := response.cons first
          simp only [and_self, if_true, List.self_eq_append_right]
          simp only [true_and] at all
          exact ⟨codes, b₃, ran, all⟩
        · rw [if_neg brotli] at next
          obtain ⟨codes, b₃, ran, response⟩ := ends_written next late
          have all := response.cons first
          simp only [brotli, false_and, if_false]
          simp only [and_self] at all
          exact ⟨codes, b₃, ran, all⟩
  obtain ⟨codes, b, ran, ⟨closed, decoded⟩, fine⟩ := ends
  obtain ⟨enough, holds⟩ := Filter.eventually_atTop.mp ran
  exact ⟨enough, codes, b, holds, closed, decoded, fine⟩

end Responses

section Samples

/-- A format: what it begins with, and what follows for the letter `a`. Everything else is
stored behind a zero. -/
structure SampleFormat where
  header : Bytes
  letter : Bytes
  deriving DecidableEq

namespace SampleFormat

variable (f : SampleFormat)

def tail (data : Bytes) : Bytes := if data = [97] then f.letter else 0 :: data

def decode (bytes : Bytes) : Option Bytes :=
  let rest := bytes.drop f.header.length
  if rest = f.letter then some [97] else if rest.head? = some 0 then some rest.tail else none

theorem decode_tail (marked : f.letter.head? ≠ some 0) (data : Bytes) :
    f.decode (f.header ++ f.tail data) = some data := by
  unfold decode tail
  rw [List.drop_left]
  by_cases letter : data = [97]
  · rw [if_pos letter, if_pos rfl, letter]
  · have other : 0 :: data ≠ f.letter := by
      intro same
      rw [← same] at marked
      exact marked rfl
    rw [if_neg letter]
    dsimp only
    rw [if_neg other]
    rfl

theorem length_tail_le (data : Bytes) : (f.tail data).length ≤ f.letter.length + 1 + data.length := by
  unfold tail
  split
  · omega
  · rw [List.length_cons]
    omega

end SampleFormat

structure SampleStream where
  format : SampleFormat
  data : Bytes
  pending : Bytes
  finished : Bool

def SampleStream.start (f : SampleFormat) : SampleStream := ⟨f, [], f.header, false⟩

def SampleStream.isFinished (s : SampleStream) : Bool := s.finished && s.pending.isEmpty

/-- What is still to be put out when everything has been taken. -/
def SampleStream.left (s : SampleStream) : Bytes :=
  if s.finished then s.pending else s.pending ++ s.format.tail s.data

def sampleCall (s : SampleStream) (op : Operation) (input : Bytes) (room : Nat) :
    Call SampleStream UInt8 Progress :=
  if op = .process ∧ s.finished = true ∧ input ≠ [] then ⟨s, 0, [], .failed⟩
  else
    let pending := if op = .finish then s.left else s.pending
    let next := ⟨s.format, s.data ++ input, pending.drop room, s.finished || op = .finish⟩
    ⟨next, input.length, pending.take room, if next.isFinished then .done else .more⟩

def sampleEncodes (f : SampleFormat) (marked : f.letter.head? ≠ some 0)
    {call : SampleStream → Operation → Bytes → Nat → Call SampleStream UInt8 Progress}
    (same : call = sampleCall) : Encodes (SampleStream.start f) call f.decode where
  Opened s x y := s.format = f ∧ s.data = x ∧ s.finished = false ∧ y ++ s.pending = f.header
  Ending s x y := s.format = f ∧ s.data = x ∧ y ++ s.left = f.header ++ f.tail x
  Ended s := s.isFinished = true
  bound n := f.header.length + (f.letter.length + 1 + n)
  opened_start := ⟨rfl, rfl, rfl, rfl⟩
  ending_of_opened := by
    rintro s x y ⟨rfl, rfl, fresh, all⟩
    refine ⟨rfl, rfl, ?_⟩
    rw [SampleStream.left, fresh, if_neg Bool.false_ne_true, ← List.append_assoc, all]
  bound_mono less := by omega
  length_le := by
    rintro s x y ⟨-, -, all⟩
    have whole := congrArg List.length all
    have tail := f.length_tail_le x
    simp only [List.length_append] at whole
    omega
  process := by
    subst same
    rintro ⟨format, data, pending, finished⟩ x y input room ⟨rfl, rfl, fresh, all⟩ - -
    dsimp only at fresh all
    subst fresh
    refine ⟨by simp [sampleCall, SampleStream.isFinished], ⟨rfl, ?_, rfl, ?_⟩,
      List.length_take_le _ _, .inl (Nat.le_refl _)⟩
    · simp [sampleCall]
    · simp [sampleCall, all]
  finish := by
    subst same
    rintro s x y room ⟨rfl, rfl, all⟩ -
    have parts : s.left.take room ++ s.left.drop room = s.left := List.take_append_drop _ _
    have called : sampleCall s .finish [] room = ⟨⟨s.format, s.data, s.left.drop room, true⟩, 0,
        s.left.take room, if (s.left.drop room).isEmpty then .done else .more⟩ := by
      simp [sampleCall, SampleStream.isFinished]
    rw [called]
    refine ⟨List.length_take_le _ _, ⟨rfl, rfl, ?_⟩, ?_⟩
    · change y ++ s.left.take room ++ s.left.drop room = _
      rw [List.append_assoc, parts, all]
    · by_cases none : s.left.drop room = []
      · refine .inr ⟨by simp [none], by simp [SampleStream.isFinished, none], ?_⟩
        rw [none, List.append_nil] at parts
        rw [parts, all]
        exact s.format.decode_tail marked s.data
      · refine .inl ⟨by simp [none], ?_⟩
        have more : room < s.left.length := by
          refine Nat.lt_of_not_le fun short => none (List.drop_eq_nil_of_le short)
        rw [List.length_take]
        omega

/-- zlib and gzip with the default compression, for the letter `a`. -/
def sampleZlib : SampleFormat := ⟨[0x78, 0x9c], [0x4b, 4, 0, 0, 0x62, 0, 0x62]⟩

def sampleGzip : SampleFormat :=
  ⟨[0x1f, 0x8b, 8, 0, 0, 0, 0, 0, 0, 3], [0x4b, 4, 0, 0x43, 0xbe, 0xb7, 0xe8, 1, 0, 0, 0]⟩

def sampleCompressors : Compressors where
  zlib := ⟨SampleStream, fun windowBits => .start (if windowBits = 15 then sampleZlib else sampleGzip),
    sampleCall, SampleStream.isFinished⟩
  brotli := ⟨SampleStream, .start sampleZlib, fun s op input room =>
    let c := sampleCall s op input room
    { c with status := c.status ≠ .failed }, SampleStream.isFinished⟩

private theorem call_sampleBrotli : BrotliBuffer.call sampleCompressors.brotli = sampleCall := by
  funext s op input room
  unfold BrotliBuffer.call sampleCompressors sampleCall
  dsimp only
  split
  · rfl
  · generalize SampleStream.isFinished _ = finished
    cases finished
    · rfl
    · rfl

def sampleCompresses : Compresses sampleCompressors where
  decode
    | .identity => some
    | .gzip => sampleGzip.decode
    | .deflate | .brotli => sampleZlib.decode
  identity _ := rfl
  deflate := sampleEncodes sampleZlib (by decide) rfl
  gzip := sampleEncodes sampleGzip (by decide) rfl
  freed _ ended := ended.elim id id
  brotli := sampleEncodes sampleZlib (by decide) call_sampleBrotli
  unfinished := by
    rintro s x y ⟨-, -, fresh, -⟩
    change (s.finished && s.pending.isEmpty) = false
    rw [fresh]
    rfl
  refuses := by
    intro s input room ended some
    have finished : s.finished = true := (Bool.and_eq_true_iff.mp ended).1
    have refused : sampleCall s .process input room = ⟨s, 0, [], .failed⟩ :=
      if_pos ⟨rfl, finished, some⟩
    refine ⟨?_, ?_, ?_⟩
    · change decide ((sampleCall s .process input room).status ≠ .failed) = false
      rw [refused]
      rfl
    · exact congrArg Call.out refused
    · exact (congrArg (fun c => SampleStream.isFinished (Call.next c)) refused).trans ended

/-- A response that is written in one piece, flushed and closed; brotli loses what comes later. -/
theorem response_sampleGzip : (∃ enough codes b, (∀ fuel, enough ≤ fuel →
      runCalls fuel (responseCalls [[97]] true [[]]) (buffer sampleCompressors .gzip) = some (codes, b)) ∧
    (∀ code ∈ codes, 0 ≤ code) ∧ b.closed = true ∧ sampleGzip.decode b.sent = some [97]) ∧
    ∃ enough codes b, (∀ fuel, enough ≤ fuel →
      runCalls fuel (responseCalls [[97]] true [[98]]) (buffer sampleCompressors .brotli) =
        some (codes, b)) ∧ ¬(∀ code ∈ codes, 0 ≤ code) ∧ sampleZlib.decode b.sent = some [97] := by
  obtain ⟨enough, codes, b, ran, closed, decoded, fine⟩ :=
    response_delivered sampleCompresses .gzip [[97]] true [[]]
  obtain ⟨enough', codes', b', ran', -, decoded', fine'⟩ :=
    response_delivered sampleCompresses .brotli [[97]] true [[98]]
  exact ⟨⟨enough, codes, b, ran, fine.mpr (by decide), closed, decoded⟩, enough', codes', b', ran',
    fun all => absurd (fine'.mp all) (by decide), decoded'⟩

end Samples

end Cgimap.Output.ContentCodings
