import Mathlib.Algebra.Group.Nat.Defs
import Xupeng.Models.ByteArray.Native.State

/-!
# Raw transfers of the chunked byte array

The copying loops walk the chain of nodes from `m_cur`. Each turn either ends
inside the node at hand or uses the node up and goes on with the next one, so a
loop is a recursion over the nodes ahead. It reports by how many nodes it has
moved its pointer, and `none` when it dereferences the null pointer at the end
of the chain.
-/

namespace Xupeng.ByteArray

/-- `addCapacity`: appends as many nodes as the request needs. A position at the
end of the old capacity has a null `m_cur`, which the first new node replaces. -/
def addCapacity (size : Nat) (s : ByteArray) : ByteArray :=
  if size = 0 then s
  else
    let old_cap := s.getCapacity
    if size ≤ old_cap then s
    else
      -- `ceil(1.0 * size / m_baseSize)`, exact in doubles for every size memory can hold
      let count := (size - old_cap + s.baseSize - 1) / s.baseSize
      { s with
        capacity := s.capacity + count * s.baseSize
        nodes := s.nodes ++ (List.range count).map fun i =>
          Node.alloc (fun j => s.heap (i * s.baseSize + j)) s.baseSize
        cur := if old_cap = 0 then some s.nodes.length else s.cur
        heap := fun i => s.heap (count * s.baseSize + i) }

/-- The loop of `write`, on the nodes from `m_cur`. -/
def writeLoop : List Node → Nat → List UInt8 → Option (List Node × Nat)
  | [], _, _ => none
  | node :: next, npos, buf =>
    let ncap := node.size - npos
    if buf.length ≤ ncap then
      some (node.store npos buf :: next, if node.size = npos + buf.length then 1 else 0)
    else
      (writeLoop next 0 (buf.drop ncap)).map fun r =>
        (node.store npos (buf.take ncap) :: r.1, r.2 + 1)

/-- `write(buf, size)` -/
def write (buf : List UInt8) : Call Unit := fun s₀ =>
  if buf = [] then .ok () s₀
  else
    let s := s₀.addCapacity buf.length
    match s.cur with
    | none => .fault
    | some i =>
      match writeLoop (s.nodes.drop i) (s.position % s.baseSize) buf with
      | none => .fault
      | some (moved, k) =>
        .ok () { s with
          nodes := s.nodes.take i ++ moved
          cur := s.nodePtr (i + k)
          position := s.position + buf.length
          size := max s.size (s.position + buf.length) }

/-- The loop of the `read` functions: the bytes copied out and the move of the pointer. -/
def readLoop : List Node → Nat → Nat → Option (List UInt8 × Nat)
  | [], _, _ => none
  | node :: next, npos, size =>
    let ncap := node.size - npos
    if size ≤ ncap then
      some ((node.ptr.drop npos).take size, if node.size = npos + size then 1 else 0)
    else
      (readLoop next 0 (size - ncap)).map fun r =>
        ((node.ptr.drop npos).take ncap ++ r.1, r.2 + 1)

/-- `read(buf, size)`. The node size is read before the loop, also for no bytes at all. -/
def read (size : Nat) : Call (List UInt8) := fun s =>
  if s.getReadSize < size then .throw .notEnoughLen s
  else
    match s.cur with
    | none => .fault
    | some i =>
      if size = 0 then .ok [] s
      else
        match readLoop (s.nodes.drop i) (s.position % s.baseSize) size with
        | none => .fault
        | some (buf, k) =>
          .ok buf { s with cur := s.nodePtr (i + k), position := s.position + size }

/-- Subtraction of two `size_t` values, which wraps below zero. -/
def sizeSub (a b : Nat) : Nat := if b ≤ a then a - b else a + 2 ^ 64 - b

/-- `read(buf, size, position) const`: walks from `m_cur`, whatever the position is. -/
def readAt (size position : Nat) : Call (List UInt8) := fun s =>
  if sizeSub s.size position < size then .throw .notEnoughLen s
  else
    match s.cur with
    | none => .fault
    | some i =>
      if size = 0 then .ok [] s
      else
        match readLoop (s.nodes.drop i) (position % s.baseSize) size with
        | none => .fault
        | some (buf, _) => .ok buf s

/-- `toString` -/
def toString : Call (List UInt8) := fun s =>
  if s.getReadSize = 0 then .ok [] s else readAt s.getReadSize s.position s

/-- The search of `setPosition`: by how many nodes the pointer moves from the root. -/
def seek : List Node → Nat → Option Nat
  | [], _ => none
  | node :: next, v =>
    if node.size < v then (seek next (v - node.size)).map (· + 1)
    else some (if v = node.size then 1 else 0)

/-- `setPosition` -/
def setPosition (v : Nat) : Call Unit := fun s =>
  if s.capacity < v then .throw .setPosition s
  else
    match seek s.nodes v with
    | none => .fault
    | some k => .ok () { s with position := v, size := max s.size v, cur := s.nodePtr k }

/-! ## Gather and scatter lists -/

/-- An `iovec` into the chain: `iov_base` is the byte `offset` of node `node`. -/
structure IoVec where
  node : Nat
  offset : Nat
  len : Nat
  deriving DecidableEq, Repr

/-- The loop that cuts `len` bytes into segments, from node `i` on. -/
def bufferLoop : Nat → List Node → Nat → Nat → Option (List IoVec)
  | _, [], _, _ => none
  | i, node :: next, npos, len =>
    let ncap := node.size - npos
    if len ≤ ncap then some [⟨i, npos, len⟩]
    else (bufferLoop (i + 1) next 0 (len - ncap)).map (⟨i, npos, ncap⟩ :: ·)

/-- `getReadBuffers(buffers, len) const`: the return value and the segments appended. -/
def getReadBuffers (len : Nat) : Call (Nat × List IoVec) := fun s =>
  let len := if s.getReadSize < len then s.getReadSize else len
  if len = 0 then .ok (0, []) s
  else
    match s.cur with
    | none => .fault
    | some i =>
      match bufferLoop i (s.nodes.drop i) (s.position % s.baseSize) len with
      | none => .fault
      | some buffers => .ok (len, buffers) s

/-- `getReadBuffers(buffers, len, position) const`. The offset in the first node
is taken from `m_position`, the node itself from `position`. -/
def getReadBuffersAt (len position : Nat) : Call (Nat × List IoVec) := fun s =>
  let len := if s.getReadSize < len then s.getReadSize else len
  if len = 0 then .ok (0, []) s
  else
    let count := position / s.baseSize
    match bufferLoop count (s.nodes.drop count) (s.position % s.baseSize) len with
    | none => .fault
    | some buffers => .ok (len, buffers) s

/-- `getWriteBuffers(buffers, len)` -/
def getWriteBuffers (len : Nat) : Call (Nat × List IoVec) := fun s₀ =>
  if len = 0 then .ok (0, []) s₀
  else
    let s := s₀.addCapacity len
    match s.cur with
    | none => .fault
    | some i =>
      match bufferLoop i (s.nodes.drop i) (s.position % s.baseSize) len with
      | none => .fault
      | some buffers => .ok (len, buffers) s

/-- The bytes a segment covers. -/
def segment (nodes : List Node) (v : IoVec) : List UInt8 :=
  (((nodes[v.node]?).map Node.ptr).getD [] |>.drop v.offset).take v.len

/-- `memcpy` of `bytes` to the front of a segment. -/
def IoVec.store (nodes : List Node) (v : IoVec) (bytes : List UInt8) : List Node :=
  nodes.modify v.node (·.store v.offset bytes)

/-- The segments filled in order, as `recvmsg` does, until `bytes` are used up. -/
def scatter : List Node → List IoVec → List UInt8 → List Node
  | nodes, [], _ => nodes
  | nodes, v :: vs, bytes => scatter (v.store nodes (bytes.take v.len)) vs (bytes.drop v.len)

/-! ## Writing a file -/

/-- An `ofstream` that has been opened. -/
structure Ofstream where
  /-- What the file holds. -/
  content : List UInt8
  /-- `badbit` is not set. -/
  good : Bool
  deriving DecidableEq, Repr

/-- `ofs.write(cur->ptr + diff, len)`. A negative count sets `badbit`, after which nothing is
written; none when the bytes do not lie in the node. -/
def Ofstream.write (ofs : Ofstream) (cur : Node) (diff len : Int) : Option Ofstream :=
  if !ofs.good then some ofs
  else if len < 0 then some { ofs with good := false }
  else if len = 0 then some ofs
  else if 0 ≤ diff ∧ diff + len ≤ cur.size then
    some { ofs with content := ofs.content ++ (cur.ptr.drop diff.toNat).take len.toNat }
  else none

/-- The loop of `writeToFile`, on the nodes from `m_cur`. The offset `diff` is an `int`. -/
def saveLoop (baseSize : Nat) : List Node → Int → Int → Ofstream → Option Ofstream
  | [], _, read_size, ofs => if read_size ≤ 0 then some ofs else none
  | cur :: next, pos, read_size, ofs =>
    if read_size ≤ 0 then some ofs
    else
      let diff := (pos % baseSize).bmod (2 ^ 32)
      let len := (if baseSize < read_size then (baseSize : Int) else read_size) - diff
      (ofs.write cur diff len).bind fun ofs =>
        saveLoop baseSize next (pos + len) (read_size - len) ofs

/-- `writeToFile`, with the return value and what the file holds afterwards; `opened` tells
whether the file could be opened. -/
def writeToFile (opened : Bool) : Call (Bool × List UInt8) := fun s =>
  if !opened then .ok (false, []) s
  else
    let ahead := match s.cur with
      | none => []
      | some i => s.nodes.drop i
    match saveLoop s.baseSize ahead s.position s.getReadSize ⟨[], true⟩ with
    | none => .fault
    | some ofs => .ok (true, ofs.content) s

/-! ## Reading a file -/

/-- The loop of `readFromFile`, when `ifs.read` gives the file back in these pieces. -/
def loadPieces : List (List UInt8) → Call Unit
  | [] => pure ()
  | piece :: pieces => do
    write piece
    loadPieces pieces

/-- The loop of `readFromFile`: pieces of `m_baseSize` bytes, the end of the file
being noticed at the first short piece. The fuel bounds the number of pieces. -/
def fileLoop : Nat → List UInt8 → Call Unit
  | 0, _ => pure ()
  | fuel + 1, rest => fun s =>
    (do
      write (rest.take s.baseSize)
      if rest.length < s.baseSize then pure () else fileLoop fuel (rest.drop s.baseSize)) s

/-- `readFromFile`; a file that cannot be opened has no content. -/
def readFromFile (file : Option (List UInt8)) : Call Bool :=
  match file with
  | none => pure false
  | some content => do
    fileLoop (content.length + 1) content
    pure true

end Xupeng.ByteArray
