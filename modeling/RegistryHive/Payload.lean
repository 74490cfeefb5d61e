import RegistryHive.Image

/-!
# Payloads of values

The payload of a value stands in its value node, in one data cell, or, when it
is too long for one cell, in segments that a big data header names. Cells are
padded, so every part is cut to the length that belongs to the payload.
-/

namespace RegistryHive

/-- The greatest length of a payload in one cell, and of a segment. -/
def segmentLimit : Nat := 16344

namespace BigData

/-- Appends segments to a payload until it has the given length. The offsets of the segments
stand in `list`, from index `i` on, and a segment is read only when it is still needed. -/
def appendSegments (image : HiveImage) (list : ByteView) (length : Nat) :
    (count i : Nat) → ByteArray → Except HiveError ByteArray
  | 0, _, payload => .ok payload
  | count + 1, i, payload =>
    if length ≤ payload.size then .ok payload
    else
      match image.cellBody (list.u32At (4 * i)) with
      | .error error => .error error
      | .ok segment =>
        let needed := min segmentLimit (length - payload.size)
        appendSegments image list length count (i + 1)
          (payload ++ (segment.part 0 needed).content)

/-- The payload of the given length from the segments that a header names. -/
def assemble (header : BigData) (image : HiveImage) (length : Nat) : Except HiveError ByteArray :=
  match image.cellBody header.segmentList with
  | .error error => .error error
  | .ok list =>
    let count := header.segmentCount.toNat
    if list.size / 4 < count then .error (.truncated header.segmentList (count * 4) list.size)
    else appendSegments image list length count 0 ByteArray.empty

end BigData

namespace ValueNode

/-- The payload of a value. -/
def payload (node : ValueNode) (image : HiveImage) : Except HiveError ByteArray :=
  let length := node.dataLength.toNat
  if node.isInline then .ok node.inlineData
  else if node.dataOffset = nullOffset then .ok ByteArray.empty
  else
    match if segmentLimit < length then image.bigData? node.dataOffset else none with
    | some header => header.assemble image length
    | none => (image.cellBody node.dataOffset).map fun body => (body.part 0 length).content

end ValueNode

end RegistryHive
