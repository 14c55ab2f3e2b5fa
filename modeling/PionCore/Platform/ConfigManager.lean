/-
# Configuration

The configuration of an object is a list of XML nodes, which `ConfigManager` searches for options:
the first element with a name counts, and an element without content is no option.  A request has
the configuration below an element of its body.
-/
import PionCore.Lib.XMLText

namespace PionCore.Platform

open PionCore.Lib

def rootElementName : Bytes := ascii "PionConfig"

/-- A node of an XML document, without the attributes. -/
inductive XMLNode where
  | element (name : Bytes) (children : List XMLNode)
  | text (content : Bytes)
  | comment

/-- A list of XML nodes; the empty list is the null pointer. -/
abbrev Config := List XMLNode

namespace XMLNode

def isNamed : XMLNode → Bytes → Bool
  | element name _, n => name = n
  | _, _ => false

def children : XMLNode → Config
  | element _ nodes => nodes
  | _ => []

mutual

/-- `xmlNodeGetContent`: the texts below a node. -/
def content : XMLNode → Bytes
  | element _ nodes => contents nodes
  | text c => c
  | comment => []

def contents : List XMLNode → Bytes
  | [] => []
  | node :: nodes => node.content ++ contents nodes

end

end XMLNode

namespace Config

variable {config : Config} {name content : Bytes}

/-- `findConfigNodeByName`. -/
def findByName (config : Config) (name : Bytes) : Option XMLNode :=
  config.find? fun node => node.isNamed name

def hasName (config : Config) (name : Bytes) : Bool := (config.findByName name).isSome

/-- `findConfigNodeByContent`. -/
def hasContent (config : Config) (name content : Bytes) : Bool :=
  config.any fun node => node.isNamed name && decide (node.content = content)

/-- `getConfigOption`. -/
def getOption (config : Config) (name : Bytes) : Option Bytes :=
  ((config.findByName name).map XMLNode.content).filter (· ≠ [])

/-- An option that is found is the content of an element. -/
lemma hasName_of_getOption (h : config.getOption name = some content) :
    config.hasName name = true := by
  obtain ⟨h, -⟩ := Option.filter_eq_some_iff.1 h
  obtain ⟨node, hnode, -⟩ := Option.map_eq_some_iff.1 h
  rw [hasName, hnode]
  rfl

end Config

/-- `createResourceConfig`, for the root element of a body. -/
def createResourceConfig (resource : Bytes) (root : XMLNode) : Option Config :=
  let nodes := if root.isNamed rootElementName = true then root.children else [root]
  (Config.findByName nodes resource).map XMLNode.children

/-! ### Text that is set -/

/-- The replacement character. -/
def replacementChar : Bytes := [239, 191, 189]

/-- A character of ASCII as `xml_encode` writes it. -/
def xmlEscape (c : Byte) : Bytes :=
  if c = 38 then ascii "&amp;"
  else if c = 60 then ascii "&lt;"
  else if c = 62 then ascii "&gt;"
  else if c = 34 then ascii "&quot;"
  else if c = 39 then ascii "&apos;"
  else [c]

/-- `xml_encode`.  The bytes behind the end of the string are zero. -/
def xmlEncode : Bytes → Bytes
  | [] => []
  | c :: s =>
    if isXMLAscii c then xmlEscape c ++ xmlEncode s
    else if 194 ≤ c ∧ c ≤ 223 then
      match s with
      | d :: s' =>
        if isContinuation d then c :: d :: xmlEncode s'
        else replacementChar ++ xmlEncode (d :: s')
      | [] => replacementChar
    else if 224 ≤ c ∧ c ≤ 239 then
      match s with
      | d :: e :: s' =>
        if isContinuation d ∧ isContinuation e then c :: d :: e :: xmlEncode s'
        else replacementChar ++ xmlEncode (d :: e :: s')
      | s' => replacementChar ++ xmlEncode s'
    else if 240 ≤ c ∧ c ≤ 244 then
      match s with
      | d :: e :: f :: s' =>
        if isContinuation d ∧ isContinuation e ∧ isContinuation f then
          c :: d :: e :: f :: xmlEncode s'
        else replacementChar ++ xmlEncode (d :: e :: f :: s')
      | s' => replacementChar ++ xmlEncode s'
    else replacementChar ++ xmlEncode s

lemma xmlUnescape_xmlEscape (c : Byte) (s : Bytes) :
    xmlUnescape 0 (xmlEscape c ++ s) = c :: xmlUnescape 0 s := by
  rw [xmlEscape]
  split_ifs with h1 h2 h3 h4 h5
  · subst h1
    exact xmlUnescape_entity (e := (ascii "&amp;", 38)) (by decide) s
  · subst h2
    exact xmlUnescape_entity (e := (ascii "&lt;", 60)) (by decide) s
  · subst h3
    exact xmlUnescape_entity (e := (ascii "&gt;", 62)) (by decide) s
  · subst h4
    exact xmlUnescape_entity (e := (ascii "&quot;", 34)) (by decide) s
  · subst h5
    exact xmlUnescape_entity (e := (ascii "&apos;", 39)) (by decide) s
  · exact xmlUnescape_cons h1 s

/-- A byte above ASCII is not the start of an entity. -/
lemma xmlUnescape_high {c : Byte} (hc : 128 ≤ c) (s : Bytes) :
    xmlUnescape 0 (c :: s) = c :: xmlUnescape 0 s := by
  refine xmlUnescape_cons ?_ s
  rintro rfl
  exact absurd hc (by decide)

lemma isContinuation_ge {c : Byte} (hc : isContinuation c = true) : 128 ≤ c := by
  simp only [isContinuation, decide_eq_true_eq] at hc
  exact hc.1

/-- Text that a document may have is encoded so that the entities give it back. -/
lemma xmlUnescape_xmlEncode {s : Bytes} (h : isXMLText s = true) :
    xmlUnescape 0 (xmlEncode s) = s := by
  fun_induction isXMLText s with
  | case1 => rfl
  | case2 c s hc ih =>
    rw [xmlEncode.eq_def]
    dsimp only
    rw [if_pos hc, xmlUnescape_xmlEscape, ih h]
  | case3 => simp at h
  | case4 c hc d s hcd ih =>
    simp only [isTwoByteChar, decide_eq_true_eq] at hcd
    obtain ⟨hlow, hhigh, hd⟩ := hcd
    have hlarge : 128 ≤ c := UInt8.le_trans (by decide : (128 : Byte) ≤ 194) hlow
    rw [xmlEncode.eq_def]
    dsimp only
    rw [if_neg hc, if_pos ⟨hlow, hhigh⟩, if_pos hd, xmlUnescape_high hlarge,
      xmlUnescape_high (isContinuation_ge hd), ih h]
  | case5 => simp at h
  | case6 c hc d hcd e s hcde ih =>
    simp only [isThreeByteChar, decide_eq_true_eq] at hcde
    obtain ⟨hlow, hhigh, hd, he, -⟩ := hcde
    have hlarge : 128 ≤ c := UInt8.le_trans (by decide : (128 : Byte) ≤ 224) hlow
    have htwo : ¬ (194 ≤ c ∧ c ≤ 223) := fun hle => absurd (UInt8.le_trans hlow hle.2) (by decide)
    rw [xmlEncode.eq_def]
    dsimp only
    rw [if_neg hc, if_neg htwo, if_pos ⟨hlow, hhigh⟩, if_pos ⟨hd, he⟩, xmlUnescape_high hlarge,
      xmlUnescape_high (isContinuation_ge hd), xmlUnescape_high (isContinuation_ge he), ih h]
  | case7 => simp at h
  | case8 c hc d hcd e hcde f s ih =>
    obtain ⟨hfour, hs⟩ := Bool.and_eq_true_iff.1 h
    simp only [isFourByteChar, decide_eq_true_eq] at hfour
    obtain ⟨hlow, hhigh, hd, he, hf, -⟩ := hfour
    have hlarge : 128 ≤ c := UInt8.le_trans (by decide : (128 : Byte) ≤ 240) hlow
    have htwo : ¬ (194 ≤ c ∧ c ≤ 223) := fun hle => absurd (UInt8.le_trans hlow hle.2) (by decide)
    have hthree : ¬ (224 ≤ c ∧ c ≤ 239) := fun hle => absurd (UInt8.le_trans hlow hle.2) (by decide)
    rw [xmlEncode.eq_def]
    dsimp only
    rw [if_neg hc, if_neg htwo, if_neg hthree, if_pos ⟨hlow, hhigh⟩, if_pos ⟨hd, he, hf⟩,
      xmlUnescape_high hlarge, xmlUnescape_high (isContinuation_ge hd),
      xmlUnescape_high (isContinuation_ge he), xmlUnescape_high (isContinuation_ge hf), ih hs]

end PionCore.Platform
