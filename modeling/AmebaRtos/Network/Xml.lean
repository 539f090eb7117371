import AmebaRtos.Lib.CString

/-!
# Dumping an XML tree

`xml_tree_size` computes the length of what `_xml_dump_tree` will append, for `xml_dump_tree` and
`xml_dump_tree_ex` to allocate their buffers. Sizes stay in the range of an `int`.
-/

namespace AmebaRtos.Network

open List Lib

/-- `struct xml_node`, with its children as a list. -/
inductive XmlNode where
  | node (name text nsPrefix attr : Option CStr) (child : List XmlNode)

def XmlNode.isElement : XmlNode → Bool
  | .node name text _ _ _ => name.isSome && text.isNone

/-- What `is_element_child` is behind the loop over the children. -/
def lastIsElement (child : List XmlNode) : Bool := child.getLast?.any XmlNode.isElement

def nextLevel (level : Nat) : Nat := if level ≠ 0 then level + 1 else 0

section Tags

variable (name : CStr)

def startSize : (nsPrefix attr : Option CStr) → Nat
  | some p, some attr => p.1.length + name.1.length + attr.1.length + 4
  | some p, none => p.1.length + name.1.length + 3
  | none, some attr => name.1.length + attr.1.length + 3
  | none, none => name.1.length + 2

def endSize : (nsPrefix : Option CStr) → Nat
  | some p => p.1.length + name.1.length + 4
  | none => name.1.length + 3

def startTag : (nsPrefix attr : Option CStr) → List UInt8
  | some p, some attr => [0x3C] ++ p.1 ++ [0x3A] ++ name.1 ++ [0x20] ++ attr.1 ++ [0x3E]
  | some p, none => [0x3C] ++ p.1 ++ [0x3A] ++ name.1 ++ [0x3E]
  | none, some attr => [0x3C] ++ name.1 ++ [0x20] ++ attr.1 ++ [0x3E]
  | none, none => [0x3C] ++ name.1 ++ [0x3E]

def endTag : (nsPrefix : Option CStr) → List UInt8
  | some p => [0x3C, 0x2F] ++ p.1 ++ [0x3A] ++ name.1 ++ [0x3E]
  | none => [0x3C, 0x2F] ++ name.1 ++ [0x3E]

end Tags

/-- A line break and `n` times the indentation. -/
def newLine (n space : Nat) : List UInt8 :=
  [0x0A] ++ (List.replicate n (List.replicate space 0x20)).flatten

mutual

def xmlTreeSize (space : Nat) : (root : XmlNode) → (level : Nat) → Nat
  | .node none (some text) _ _ _, _ => text.1.length
  | .node (some name) none nsPrefix attr child, level =>
    startSize name nsPrefix attr + childrenSize space child level +
      (if lastIsElement child ∧ level ≠ 0 then 1 + (level - 1) * space else 0) +
      endSize name nsPrefix
  | _, _ => 0

def childrenSize (space : Nat) : (child : List XmlNode) → (level : Nat) → Nat
  | [], _ => 0
  | child :: next, level =>
    (if child.isElement ∧ level ≠ 0 then 1 + level * space else 0) +
      xmlTreeSize space child (nextLevel level) + childrenSize space next level

end

mutual

/-- What `_xml_dump_tree` appends. -/
def dumpTree (space : Nat) : (root : XmlNode) → (level : Nat) → List UInt8
  | .node none (some text) _ _ _, _ => text.1
  | .node (some name) none nsPrefix attr child, level =>
    startTag name nsPrefix attr ++ dumpChildren space child level ++
      (if lastIsElement child ∧ level ≠ 0 then newLine (level - 1) space else []) ++
      endTag name nsPrefix
  | _, _ => []

def dumpChildren (space : Nat) : (child : List XmlNode) → (level : Nat) → List UInt8
  | [], _ => []
  | child :: next, level =>
    (if child.isElement ∧ level ≠ 0 then newLine level space else []) ++
      dumpTree space child (nextLevel level) ++ dumpChildren space next level

end

/-- The size of a buffer, and the string in it. -/
structure XmlDump where
  allocated : Nat
  xmlBuf : List UInt8

/-- The string is in the buffer, with the zero behind it. -/
def XmlDump.Fits (d : XmlDump) : Prop := d.xmlBuf.length + 1 ≤ d.allocated

def xmlDumpTree (root : XmlNode) : XmlDump := ⟨xmlTreeSize 0 root 0 + 1, dumpTree 0 root 0⟩

def xmlDumpTreeEx (root : XmlNode) (prolog : Option CStr) (newLine : Bool) (space : Nat) :
    XmlDump :=
  let space := if space > 10 then 10 else space
  let xmlSize := xmlTreeSize space root 1
  match prolog, newLine with
  | some prolog, true =>
    ⟨prolog.1.length + xmlSize + 2, prolog.1 ++ [0x0A] ++ dumpTree space root newLine.toNat⟩
  | some prolog, false =>
    ⟨prolog.1.length + xmlSize + 1, prolog.1 ++ dumpTree space root newLine.toNat⟩
  | none, _ => ⟨xmlSize + 1, dumpTree space root newLine.toNat⟩

theorem length_newLine : (newLine n space).length = 1 + n * space := by
  simp [newLine, Nat.add_comm]

theorem length_startTag : (startTag name nsPrefix attr).length = startSize name nsPrefix attr := by
  cases nsPrefix <;> cases attr <;> simp +arith [startTag, startSize]

theorem length_endTag : (endTag name nsPrefix).length = endSize name nsPrefix := by
  cases nsPrefix <;> simp +arith [endTag, endSize]

mutual

theorem length_dumpTree : ∀ root level,
    (dumpTree space root level).length = xmlTreeSize space root level
  | .node none (some text) _ _ _, _ => by simp [dumpTree, xmlTreeSize]
  | .node (some name) none nsPrefix attr child, level => by
    simp only [dumpTree, xmlTreeSize, length_append, length_startTag, length_endTag,
      length_dumpChildren child level, apply_ite List.length, length_newLine, length_nil]
  | .node none none _ _ _, _ => rfl
  | .node (some _) (some _) _ _ _, _ => rfl

theorem length_dumpChildren : ∀ child level,
    (dumpChildren space child level).length = childrenSize space child level
  | [], _ => rfl
  | child :: next, level => by
    simp only [dumpChildren, childrenSize, length_append, length_dumpTree child,
      length_dumpChildren next, apply_ite List.length, length_newLine, length_nil]

end

mutual

theorem xmlTreeSize_zero_le (space : Nat) : ∀ root level,
    xmlTreeSize space root 0 ≤ xmlTreeSize space root level
  | .node none (some text) _ _ _, _ => by simp [xmlTreeSize]
  | .node (some name) none nsPrefix attr child, level => by
    have hchild := childrenSize_zero_le space child level
    simp only [xmlTreeSize]
    simp
    omega
  | .node none none _ _ _, _ => Nat.le_refl _
  | .node (some _) (some _) _ _ _, _ => Nat.le_refl _

theorem childrenSize_zero_le (space : Nat) : ∀ child level,
    childrenSize space child 0 ≤ childrenSize space child level
  | [], _ => Nat.le_refl _
  | child :: next, level => by
    have hfirst := xmlTreeSize_zero_le space child (nextLevel level)
    have hnext := childrenSize_zero_le space next level
    simp only [childrenSize]
    simp [nextLevel] at hfirst ⊢
    omega

end

/-- **The size of a dump is that of its text**, for every tree, level and indentation, and so no
    dump is written past its buffer. -/
theorem xml_dump_fits (root : XmlNode) :
    (∀ level space, xmlTreeSize space root level = (dumpTree space root level).length) ∧
      (xmlDumpTree root).Fits ∧
      ∀ prolog newLine space, (xmlDumpTreeEx root prolog newLine space).Fits := by
  refine ⟨fun level space => (length_dumpTree root level).symm, ?_, ?_⟩
  · exact (congrArg Nat.succ (length_dumpTree root 0)).le
  · intro prolog newLine space
    simp only [xmlDumpTreeEx]
    generalize (if space > 10 then 10 else space) = space
    have hle := xmlTreeSize_zero_le space root 1
    cases prolog <;> cases newLine <;>
      simp [XmlDump.Fits, length_dumpTree] <;> omega

end AmebaRtos.Network
