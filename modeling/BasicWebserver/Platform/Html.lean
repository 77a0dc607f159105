import BasicWebserver.Foundation.Utf8

/-!
# HTML

The renderer of `platform/Html.roc`, and a reader of tags, attributes and entities that takes its
output back to the nodes. The reader goes from byte to byte; what it has read of the forest is a list
of nodes at each open element. Every piece the renderer writes moves it by exactly that piece
(`run_escapeText`, `run_renderAttributes`), so a rendered node is added to the nodes read so far
(`run_render`), and a rendered forest is read as itself (`read_renderFragment`).

Two texts that follow each other cannot be told apart from one, and an empty one leaves no trace:
`merged` is the forest without them.
-/

namespace BasicWebserver.Platform.Html

open Ascii Utf8

abbrev Str := List UInt8

structure Attribute where
  rawName : Str
  rawValue : Str
  deriving DecidableEq

inductive HtmlNode
  | text (value : Str)
  | raw (value : Str)
  | element (tag : Str) (attrs : List Attribute) (children : List HtmlNode)
  | voidElement (tag : Str) (attrs : List Attribute)

/-! ## The renderer -/

/-- What `escape_html_bytes` appends for a byte. -/
def escapeByte (escapeQuotes : Bool) (byte : UInt8) : Str :=
  if byte = 38 then ascii "&amp;"
  else if byte = 60 then ascii "&lt;"
  else if byte = 62 then ascii "&gt;"
  else if byte = 34 ∧ escapeQuotes then ascii "&quot;"
  else if byte = 39 ∧ escapeQuotes then ascii "&#39;"
  else if byte = 10 ∧ escapeQuotes then ascii "&#10;"
  else if byte = 13 ∧ escapeQuotes then ascii "&#13;"
  else [byte]

def escapedBytes (value : Str) (escapeQuotes : Bool) : Str :=
  value.foldl (fun bytes byte => bytes ++ escapeByte escapeQuotes byte) []

/-- The escaped bytes are made a text again; bytes that are not UTF-8 give the empty text. -/
def escapeHtmlBytes (value : Str) (escapeQuotes : Bool) : Str :=
  if isUtf8 (escapedBytes value escapeQuotes) then escapedBytes value escapeQuotes else []

def escapeText (value : Str) : Str := escapeHtmlBytes value false

def escapeAttribute (value : Str) : Str := escapeHtmlBytes value true

def renderAttribute (attr : Attribute) : Str :=
  attr.rawName ++ ascii "=\"" ++ escapeAttribute attr.rawValue ++ ascii "\""

def renderAttributes (attrs : List Attribute) : Str :=
  if attrs.isEmpty then [] else ascii " " ++ (ascii " ").intercalate (attrs.map renderAttribute)

mutual

def renderWithoutDocType : HtmlNode → Str
  | .text value => escapeText value
  | .raw value => value
  | .element tag attrs children =>
    ascii "<" ++ tag ++ renderAttributes attrs ++ ascii ">" ++ renderChildren children ++
      ascii "</" ++ tag ++ ascii ">"
  | .voidElement tag attrs => ascii "<" ++ tag ++ renderAttributes attrs ++ ascii ">"

/-- The rendered children, joined with nothing between them. -/
def renderChildren : List HtmlNode → Str
  | [] => []
  | child :: children => renderWithoutDocType child ++ renderChildren children

end

def renderFragment (nodes : List HtmlNode) : Str := renderChildren nodes

/-! ## The forest up to texts that cannot be told apart -/

/-- The nodes with a text after them, which becomes part of a text at their end. -/
def addText (nodes : List HtmlNode) (value : Str) : List HtmlNode :=
  if value = [] then nodes
  else match nodes.getLast? with
    | some (.text before) => nodes.dropLast ++ [.text (before ++ value)]
    | _ => nodes ++ [.text value]

mutual

/-- The nodes with another one after them. -/
def addNode (nodes : List HtmlNode) : HtmlNode → List HtmlNode
  | .text value => addText nodes value
  | .raw value => nodes ++ [.raw value]
  | .element tag attrs children => nodes ++ [.element tag attrs (addNodes [] children)]
  | .voidElement tag attrs => nodes ++ [.voidElement tag attrs]

def addNodes (nodes : List HtmlNode) : List HtmlNode → List HtmlNode
  | [] => nodes
  | node :: rest => addNodes (addNode nodes node) rest

end

/-- The forest with adjacent texts merged and empty ones dropped, at every level. -/
def merged (forest : List HtmlNode) : List HtmlNode := addNodes [] forest

@[simp] theorem addText_nil (nodes : List HtmlNode) : addText nodes [] = nodes := if_pos rfl

theorem addText_append_text (nodes : List HtmlNode) (before value : Str) :
    addText (nodes ++ [.text before]) value = nodes ++ [.text (before ++ value)] := by
  by_cases h : value = []
  · rw [h, addText_nil, List.append_nil]
  · unfold addText
    rw [if_neg h, List.getLast?_concat, List.dropLast_concat]

theorem addText_cases (nodes : List HtmlNode) :
    ∃ init before, ∀ value, value ≠ [] → addText nodes value = init ++ [.text (before ++ value)] := by
  by_cases h : ∃ init before, nodes = init ++ [.text before]
  · obtain ⟨init, before, rfl⟩ := h
    exact ⟨init, before, fun value _ => addText_append_text init before value⟩
  · refine ⟨nodes, [], fun value hvalue => ?_⟩
    unfold addText
    rw [if_neg hvalue, List.nil_append]
    split
    · rename_i before hlast
      exact absurd ⟨nodes.dropLast, before, (List.dropLast_append_getLast? _ hlast).symm⟩ h
    · rfl

theorem addText_addText (nodes : List HtmlNode) (a b : Str) :
    addText (addText nodes a) b = addText nodes (a ++ b) := by
  by_cases ha : a = []
  · rw [ha, addText_nil, List.nil_append]
  obtain ⟨init, before, h⟩ := addText_cases nodes
  rw [h a ha, h (a ++ b) (by simp [ha]), addText_append_text, List.append_assoc]

/-! ## A reader -/

def isNameByte (byte : UInt8) : Bool := isAlphanumeric byte || byte = 45

/-- The entities the reader knows, without the ampersand and the semicolon. -/
def entities : List (Str × UInt8) :=
  [(ascii "amp", 38), (ascii "lt", 60), (ascii "gt", 62), (ascii "quot", 34), (ascii "#39", 39),
    (ascii "#10", 10), (ascii "#13", 13)]

/-- What the reader is in the middle of, with what it has read of it. -/
inductive Mode
  | text
  | entity (name : Str)
  | tagOpen
  | startTag (tag : Str)
  | endTag (tag : Str)
  | attributeName (tag : Str) (attrs : List Attribute) (name : Str)
  | attributeEquals (tag : Str) (attrs : List Attribute) (name : Str)
  | attributeValue (tag : Str) (attrs : List Attribute) (name value : Str)
  | attributeEntity (tag : Str) (attrs : List Attribute) (name value entity : Str)
  | attributeEnd (tag : Str) (attrs : List Attribute)

/-- An open element, with the nodes before it. -/
structure Frame where
  tag : Str
  attrs : List Attribute
  before : List HtmlNode

structure Reader where
  mode : Mode
  frames : List Frame
  nodes : List HtmlNode

/-- After a start tag: a void element is complete, any other one is open. -/
def Reader.opened (isVoid : Str → Bool) (r : Reader) (tag : Str) (attrs : List Attribute) : Reader :=
  if isVoid tag then ⟨.text, r.frames, r.nodes ++ [.voidElement tag attrs]⟩
  else ⟨.text, ⟨tag, attrs, r.nodes⟩ :: r.frames, []⟩

/-- After an end tag, which closes the innermost open element. -/
def Reader.closed (r : Reader) (tag : Str) : Option Reader :=
  match r.frames with
  | [] => none
  | frame :: frames =>
    if frame.tag = tag then
      some ⟨.text, frames, frame.before ++ [.element tag frame.attrs r.nodes]⟩
    else none

def Reader.step (isVoid : Str → Bool) (r : Reader) (byte : UInt8) : Option Reader :=
  match r.mode with
  | .text =>
    if byte = 60 then some { r with mode := .tagOpen }
    else if byte = 38 then some { r with mode := .entity [] }
    else some { r with nodes := addText r.nodes [byte] }
  | .entity name =>
    if byte = 59 then
      (entities.lookup name).map fun b => ⟨.text, r.frames, addText r.nodes [b]⟩
    else some { r with mode := .entity (name ++ [byte]) }
  | .tagOpen =>
    if byte = 47 then some { r with mode := .endTag [] }
    else if isNameByte byte then some { r with mode := .startTag [byte] }
    else none
  | .startTag tag =>
    if byte = 62 then some (r.opened isVoid tag [])
    else if byte = 32 then some { r with mode := .attributeName tag [] [] }
    else if isNameByte byte then some { r with mode := .startTag (tag ++ [byte]) }
    else none
  | .endTag tag =>
    if byte = 62 then r.closed tag
    else if isNameByte byte then some { r with mode := .endTag (tag ++ [byte]) }
    else none
  | .attributeName tag attrs name =>
    if byte = 61 ∧ name ≠ [] then some { r with mode := .attributeEquals tag attrs name }
    else if isNameByte byte then some { r with mode := .attributeName tag attrs (name ++ [byte]) }
    else none
  | .attributeEquals tag attrs name =>
    if byte = 34 then some { r with mode := .attributeValue tag attrs name [] } else none
  | .attributeValue tag attrs name value =>
    if byte = 34 then some { r with mode := .attributeEnd tag (attrs ++ [⟨name, value⟩]) }
    else if byte = 38 then some { r with mode := .attributeEntity tag attrs name value [] }
    else some { r with mode := .attributeValue tag attrs name (value ++ [byte]) }
  | .attributeEntity tag attrs name value entity =>
    if byte = 59 then
      (entities.lookup entity).map fun b =>
        { r with mode := .attributeValue tag attrs name (value ++ [b]) }
    else some { r with mode := .attributeEntity tag attrs name value (entity ++ [byte]) }
  | .attributeEnd tag attrs =>
    if byte = 62 then some (r.opened isVoid tag attrs)
    else if byte = 32 then some { r with mode := .attributeName tag attrs [] }
    else none

def Reader.run (isVoid : Str → Bool) (r : Reader) (bytes : Str) : Option Reader :=
  bytes.foldlM (Reader.step isVoid) r

/-- The forest that a fragment is, where every element is closed. -/
def read (isVoid : Str → Bool) (bytes : Str) : Option (List HtmlNode) :=
  (Reader.run isVoid ⟨.text, [], []⟩ bytes).bind fun r =>
    match r.mode, r.frames with
    | .text, [] => some r.nodes
    | _, _ => none

/-- The names the renderer may be given: they are written as they are. -/
def IsName (name : Str) : Prop := name ≠ [] ∧ ∀ byte ∈ name, isNameByte byte

structure Attribute.WellFormed (attr : Attribute) : Prop where
  name : IsName attr.rawName
  value : isUtf8 attr.rawValue

/-- A node without raw parts, whose names are names. The tags of void elements are the void ones, so
no element has one of them. -/
inductive HtmlNode.WellFormed (isVoid : Str → Bool) : HtmlNode → Prop
  | text {value : Str} (hvalue : isUtf8 value) : WellFormed isVoid (.text value)
  | element {tag : Str} {attrs : List Attribute} {children : List HtmlNode} (htag : IsName tag)
      (hvoid : isVoid tag = false) (hattrs : ∀ attr ∈ attrs, attr.WellFormed)
      (hchildren : ∀ child ∈ children, WellFormed isVoid child) :
      WellFormed isVoid (.element tag attrs children)
  | voidElement {tag : Str} {attrs : List Attribute} (htag : IsName tag)
      (hvoid : isVoid tag = true) (hattrs : ∀ attr ∈ attrs, attr.WellFormed) :
      WellFormed isVoid (.voidElement tag attrs)

/-! ## Escaping -/

theorem escapedBytes_eq (value : Str) (escapeQuotes : Bool) :
    escapedBytes value escapeQuotes = value.flatMap (escapeByte escapeQuotes) := by
  unfold escapedBytes
  rw [← List.flatMap_eq_foldl]

theorem entities_spec : ∀ entity ∈ entities, entity.1.all (fun b => b ≠ 59 && b < 128) = true ∧
    entities.lookup entity.1 = some entity.2 ∧ entity.2 < 128 := by
  decide +kernel

theorem escapeByte_cases (escapeQuotes : Bool) (byte : UInt8) :
    (escapeByte escapeQuotes byte = [byte] ∧ byte ≠ 38 ∧ byte ≠ 60 ∧
        (escapeQuotes = true → byte ≠ 34)) ∨
      ∃ name, escapeByte escapeQuotes byte = 38 :: (name ++ [59]) ∧ (∀ b ∈ name, b ≠ 59) ∧
        entities.lookup name = some byte ∧ byte < 128 ∧ ∀ b ∈ name, b < 128 := by
  have hentity : ∀ (name : Str) (text : Str), (name, byte) ∈ entities → text = 38 :: (name ++ [59]) →
      ∃ name, text = 38 :: (name ++ [59]) ∧ (∀ b ∈ name, b ≠ 59) ∧
        entities.lookup name = some byte ∧ byte < 128 ∧ ∀ b ∈ name, b < 128 := by
    intro name text hmem htext
    obtain ⟨hall, hlookup, hbyte⟩ := entities_spec _ hmem
    have hname := fun b hb => Bool.and_eq_true_iff.mp (List.all_eq_true.mp hall b hb)
    exact ⟨name, htext, fun b hb => of_decide_eq_true (hname b hb).1, hlookup, hbyte,
      fun b hb => of_decide_eq_true (hname b hb).2⟩
  unfold escapeByte
  split_ifs with h₁ h₂ h₃ h₄ h₅ h₆ h₇
  · exact .inr (hentity (ascii "amp") _ (by simp [entities, h₁]) rfl)
  · exact .inr (hentity (ascii "lt") _ (by simp [entities, h₂]) rfl)
  · exact .inr (hentity (ascii "gt") _ (by simp [entities, h₃]) rfl)
  · exact .inr (hentity (ascii "quot") _ (by simp [entities, h₄.1]) rfl)
  · exact .inr (hentity (ascii "#39") _ (by simp [entities, h₅.1]) rfl)
  · exact .inr (hentity (ascii "#10") _ (by simp [entities, h₆.1]) rfl)
  · exact .inr (hentity (ascii "#13") _ (by simp [entities, h₇.1]) rfl)
  · exact .inl ⟨rfl, h₁, h₂, fun hq h => h₄ ⟨h, hq⟩⟩

theorem isUtf8_escapedBytes {value : Str} (h : isUtf8 value) (escapeQuotes : Bool) :
    isUtf8 (escapedBytes value escapeQuotes) := by
  rw [escapedBytes_eq]
  refine isUtf8_flatMap ?_ ?_ h
  · intro byte hbyte x hx
    rcases escapeByte_cases escapeQuotes byte with ⟨he, -⟩ | ⟨name, he, -, -, -, hname⟩
    · rw [he, List.mem_singleton] at hx
      exact hx ▸ hbyte
    · rw [he, List.mem_cons, List.mem_append, List.mem_singleton] at hx
      rcases hx with rfl | hx | rfl
      · decide
      · exact hname x hx
      · decide
  · intro byte hbyte
    rcases escapeByte_cases escapeQuotes byte with ⟨he, -⟩ | ⟨-, -, -, -, hlt, -⟩
    · exact he
    · exact absurd hlt (UInt8.not_lt.mpr hbyte)

theorem escapeHtmlBytes_eq {value : Str} (h : isUtf8 value) (escapeQuotes : Bool) :
    escapeHtmlBytes value escapeQuotes = value.flatMap (escapeByte escapeQuotes) := by
  unfold escapeHtmlBytes
  rw [if_pos (isUtf8_escapedBytes h escapeQuotes), escapedBytes_eq]

/-! ## What each piece does to the reader -/

section

variable {isVoid : Str → Bool}

theorem Reader.run_append (r : Reader) (a b : Str) :
    r.run isVoid (a ++ b) = (r.run isVoid a).bind fun r' => r'.run isVoid b :=
  List.foldlM_append

theorem Reader.run_cons (r : Reader) (byte : UInt8) (rest : Str) :
    r.run isVoid (byte :: rest) = (r.step isVoid byte).bind fun r' => r'.run isVoid rest :=
  List.foldlM_cons

theorem Reader.run_append_of_some {r r' : Reader} {a : Str} (h : r.run isVoid a = some r') (b : Str) :
    r.run isVoid (a ++ b) = r'.run isVoid b := by
  rw [run_append, h, Option.bind_some]

theorem Reader.run_cons_of_some {r r' : Reader} {byte : UInt8} (h : r.step isVoid byte = some r')
    (rest : Str) : r.run isVoid (byte :: rest) = r'.run isVoid rest := by
  rw [run_cons, h, Option.bind_some]

theorem Reader.run_collect (reader : Str → Reader) {p : UInt8 → Prop}
    (hstep : ∀ read byte, p byte → (reader read).step isVoid byte = some (reader (read ++ [byte])))
    (bytes : Str) (hbytes : ∀ byte ∈ bytes, p byte) (read : Str) :
    (reader read).run isVoid bytes = some (reader (read ++ bytes)) := by
  induction bytes generalizing read with
  | nil => rw [List.append_nil]; rfl
  | cons byte bytes ih =>
    rw [run_cons_of_some (hstep read byte (hbytes byte List.mem_cons_self)),
      ih (fun b hb => hbytes b (List.mem_cons_of_mem _ hb)), List.append_assoc, List.singleton_append]

theorem isNameByte_ne {byte : UInt8} (h : isNameByte byte) :
    byte ≠ 62 ∧ byte ≠ 32 ∧ byte ≠ 61 ∧ byte ≠ 47 := by
  refine ⟨?_, ?_, ?_, ?_⟩ <;> rintro rfl <;> exact absurd h (by decide)

/-- **Reading a value back.** A reader that takes the bytes of a value as they are, and entities for
what they stand for, reads an escaped value as the value. -/
theorem Reader.run_escapeHtmlBytes {escapeQuotes : Bool} (reader : Str → Reader)
    (entity : Str → Str → Reader)
    (hplain : ∀ read byte, byte ≠ 38 → byte ≠ 60 → (escapeQuotes = true → byte ≠ 34) →
      (reader read).step isVoid byte = some (reader (read ++ [byte])))
    (hstart : ∀ read, (reader read).step isVoid 38 = some (entity read []))
    (hname : ∀ read name byte, byte ≠ 59 →
      (entity read name).step isVoid byte = some (entity read (name ++ [byte])))
    (hend : ∀ read name, (entity read name).step isVoid 59 =
      (entities.lookup name).map fun byte => reader (read ++ [byte]))
    {value : Str} (hvalue : isUtf8 value) (read : Str) :
    (reader read).run isVoid (escapeHtmlBytes value escapeQuotes) = some (reader (read ++ value)) := by
  rw [escapeHtmlBytes_eq hvalue]
  clear hvalue
  induction value generalizing read with
  | nil => rw [List.append_nil]; rfl
  | cons byte value ih =>
    have hbyte : (reader read).run isVoid (escapeByte escapeQuotes byte) =
        some (reader (read ++ [byte])) := by
      rcases escapeByte_cases escapeQuotes byte with ⟨he, h₁, h₂, h₃⟩ | ⟨name, he, hn, hlookup, -⟩
      · rw [he, run_cons_of_some (hplain read byte h₁ h₂ h₃)]
        rfl
      · rw [he, run_cons_of_some (hstart read),
          run_append_of_some (run_collect (entity read) (hname read) name hn []), run_cons,
          List.nil_append, hend, hlookup]
        rfl
    rw [List.flatMap_cons, run_append_of_some hbyte, ih, List.append_assoc, List.singleton_append]

variable (isVoid) (frames : List Frame) (nodes : List HtmlNode)

theorem run_escapeText {value : Str} (h : isUtf8 value) :
    Reader.run isVoid ⟨.text, frames, nodes⟩ (escapeText value) =
      some ⟨.text, frames, addText nodes value⟩ := by
  have hrun : Reader.run isVoid ⟨.text, frames, addText nodes []⟩ (escapeHtmlBytes value false) =
      some ⟨.text, frames, addText nodes ([] ++ value)⟩ := by
    refine Reader.run_escapeHtmlBytes (fun read => ⟨.text, frames, addText nodes read⟩)
      (fun read name => ⟨.entity name, frames, addText nodes read⟩) ?_ ?_ ?_ ?_ h []
    · intro read byte hamp hlt _
      simp only [Reader.step, if_neg hamp, if_neg hlt, addText_addText]
    · intro read
      rfl
    · intro read name byte hbyte
      simp only [Reader.step, if_neg hbyte]
    · intro read name
      simp only [Reader.step, if_true, addText_addText]
  rwa [addText_nil] at hrun

variable (tag : Str) (attrs : List Attribute)

theorem run_renderAttribute {attr : Attribute} (h : attr.WellFormed) :
    Reader.run isVoid ⟨.attributeName tag attrs [], frames, nodes⟩ (renderAttribute attr) =
      some ⟨.attributeEnd tag (attrs ++ [attr]), frames, nodes⟩ := by
  have hname : Reader.run isVoid ⟨.attributeName tag attrs [], frames, nodes⟩ attr.rawName =
      some ⟨.attributeName tag attrs attr.rawName, frames, nodes⟩ := by
    refine Reader.run_collect (fun read => ⟨.attributeName tag attrs read, frames, nodes⟩)
      (p := fun byte => isNameByte byte) ?_ attr.rawName h.name.2 []
    intro read byte hbyte
    have hne : ¬(byte = 61 ∧ read ≠ []) := fun hb => (isNameByte_ne hbyte).2.2.1 hb.1
    simp only [Reader.step, if_neg hne, if_pos hbyte]
  have hequals : Reader.run isVoid ⟨.attributeName tag attrs attr.rawName, frames, nodes⟩
      (ascii "=\"") = some ⟨.attributeValue tag attrs attr.rawName [], frames, nodes⟩ := by
    show Reader.run isVoid _ [61, 34] = _
    rw [Reader.run_cons]
    simp only [Reader.step, ne_eq, h.name.1, not_false_eq_true, and_self, if_true]
    rfl
  have hvalue : Reader.run isVoid ⟨.attributeValue tag attrs attr.rawName [], frames, nodes⟩
      (escapeAttribute attr.rawValue) =
        some ⟨.attributeValue tag attrs attr.rawName ([] ++ attr.rawValue), frames, nodes⟩ := by
    refine Reader.run_escapeHtmlBytes
      (fun read => ⟨.attributeValue tag attrs attr.rawName read, frames, nodes⟩)
      (fun read name => ⟨.attributeEntity tag attrs attr.rawName read name, frames, nodes⟩)
      ?_ ?_ ?_ ?_ h.value []
    · intro read byte hamp _ hquote
      simp only [Reader.step, if_neg hamp, if_neg (hquote rfl)]
    · intro read
      rfl
    · intro read name byte hbyte
      simp only [Reader.step, if_neg hbyte]
    · intro read name
      rfl
  unfold renderAttribute
  rw [List.append_assoc, List.append_assoc, Reader.run_append_of_some hname,
    Reader.run_append_of_some hequals, Reader.run_append_of_some hvalue]
  rfl

theorem run_attributes {attr : Attribute} {rest : List Attribute}
    (h : ∀ a ∈ attr :: rest, a.WellFormed) :
    Reader.run isVoid ⟨.attributeName tag attrs [], frames, nodes⟩
      ((ascii " ").intercalate ((attr :: rest).map renderAttribute)) =
        some ⟨.attributeEnd tag (attrs ++ attr :: rest), frames, nodes⟩ := by
  induction rest generalizing attr attrs with
  | nil =>
    rw [List.map_singleton, List.intercalate_singleton]
    exact run_renderAttribute isVoid frames nodes tag attrs (h attr List.mem_cons_self)
  | cons attr' rest ih =>
    have hattr := run_renderAttribute isVoid frames nodes tag attrs (h attr List.mem_cons_self)
    have hrest := ih (attrs ++ [attr]) fun a ha => h a (List.mem_cons_of_mem _ ha)
    rw [List.map_cons, List.map_cons, List.intercalate_cons_cons, List.append_assoc,
      Reader.run_append_of_some hattr]
    show Reader.run isVoid ⟨.attributeName tag (attrs ++ [attr]) [], frames, nodes⟩
      ((ascii " ").intercalate ((attr' :: rest).map renderAttribute)) = _
    rw [hrest, List.append_assoc, List.singleton_append]

theorem run_startTag {tag : Str} {attrs : List Attribute} (htag : IsName tag)
    (hattrs : ∀ attr ∈ attrs, attr.WellFormed) :
    Reader.run isVoid ⟨.text, frames, nodes⟩
      (ascii "<" ++ tag ++ renderAttributes attrs ++ ascii ">") =
        some (Reader.opened isVoid ⟨.text, frames, nodes⟩ tag attrs) := by
  have hname : Reader.run isVoid ⟨.text, frames, nodes⟩ (ascii "<" ++ tag) =
      some ⟨.startTag tag, frames, nodes⟩ := by
    obtain ⟨hne, hbytes⟩ := htag
    obtain ⟨byte, rest, rfl⟩ := List.exists_cons_of_ne_nil hne
    have hbyte := hbytes byte List.mem_cons_self
    show Reader.run isVoid ⟨.tagOpen, frames, nodes⟩ (byte :: rest) = _
    rw [Reader.run_cons]
    simp only [Reader.step, if_neg (isNameByte_ne hbyte).2.2.2, if_pos hbyte, Option.bind_some]
    refine Reader.run_collect (fun read => ⟨.startTag read, frames, nodes⟩)
      (p := fun byte => isNameByte byte) ?_ rest
      (fun b hb => hbytes b (List.mem_cons_of_mem _ hb)) [byte]
    intro read b hb
    simp only [Reader.step, if_neg (isNameByte_ne hb).1, if_neg (isNameByte_ne hb).2.1, if_pos hb]
  rw [List.append_assoc, Reader.run_append_of_some hname]
  cases attrs with
  | nil => rfl
  | cons attr rest =>
    have hrest := run_attributes isVoid frames nodes tag [] hattrs
    show Reader.run isVoid ⟨.attributeName tag [] [], frames, nodes⟩
      ((ascii " ").intercalate ((attr :: rest).map renderAttribute) ++ ascii ">") = _
    rw [Reader.run_append_of_some hrest]
    rfl

theorem run_endTag (htag : IsName tag) :
    Reader.run isVoid ⟨.text, frames, nodes⟩ (ascii "</" ++ tag ++ ascii ">") =
      Reader.closed ⟨.text, frames, nodes⟩ tag := by
  have hname : Reader.run isVoid ⟨.endTag [], frames, nodes⟩ tag =
      some ⟨.endTag tag, frames, nodes⟩ := by
    refine Reader.run_collect (fun read => ⟨.endTag read, frames, nodes⟩)
      (p := fun byte => isNameByte byte) ?_ tag htag.2 []
    intro read b hb
    simp only [Reader.step, if_neg (isNameByte_ne hb).1, if_pos hb]
  rw [List.append_assoc]
  show Reader.run isVoid ⟨.endTag [], frames, nodes⟩ (tag ++ ascii ">") = _
  rw [Reader.run_append_of_some hname]
  exact Option.bind_fun_some _

theorem run_renderChildren {children : List HtmlNode}
    (h : ∀ child ∈ children, ∀ nodes, Reader.run isVoid ⟨.text, frames, nodes⟩
      (renderWithoutDocType child) = some ⟨.text, frames, addNode nodes child⟩) :
    Reader.run isVoid ⟨.text, frames, nodes⟩ (renderChildren children) =
      some ⟨.text, frames, addNodes nodes children⟩ := by
  induction children generalizing nodes with
  | nil => rfl
  | cons child children ih =>
    simp only [renderChildren, addNodes]
    rw [Reader.run_append_of_some (h child List.mem_cons_self nodes),
      ih _ fun c hc => h c (List.mem_cons_of_mem _ hc)]

/-- **One node.** Reading a rendered node adds it to the nodes read so far. -/
theorem run_render {node : HtmlNode} (h : node.WellFormed isVoid) :
    Reader.run isVoid ⟨.text, frames, nodes⟩ (renderWithoutDocType node) =
      some ⟨.text, frames, addNode nodes node⟩ := by
  induction h generalizing frames nodes with
  | text hvalue =>
    simp only [renderWithoutDocType, addNode]
    exact run_escapeText isVoid frames nodes hvalue
  | @element tag attrs children htag hvoid hattrs _ ih =>
    have hstart := run_startTag isVoid frames nodes htag hattrs
    simp only [Reader.opened, hvoid, Bool.false_eq_true, if_false] at hstart
    have hchildren := run_renderChildren isVoid (⟨tag, attrs, nodes⟩ :: frames) []
      fun child hchild inner => ih child hchild _ inner
    have hend := run_endTag isVoid (⟨tag, attrs, nodes⟩ :: frames) (addNodes [] children) tag htag
    simp only [Reader.closed, if_true] at hend
    simp only [renderWithoutDocType, addNode]
    rw [List.append_assoc, List.append_assoc, List.append_assoc, Reader.run_append_of_some hstart,
      Reader.run_append_of_some hchildren, ← List.append_assoc, hend]
  | @voidElement tag attrs htag hvoid hattrs =>
    simp only [renderWithoutDocType, addNode]
    rw [run_startTag isVoid frames nodes htag hattrs]
    simp only [Reader.opened, if_pos hvoid]

theorem read_renderFragment {forest : List HtmlNode} (h : ∀ node ∈ forest, node.WellFormed isVoid) :
    read isVoid (renderFragment forest) = some (merged forest) := by
  have hrun := run_renderChildren isVoid [] [] fun node hnode nodes =>
    run_render isVoid [] nodes (h node hnode)
  unfold read renderFragment
  rw [hrun]
  rfl

end

/-- **Rendering is faithful.** A forest of nodes without raw parts, whose names are names and whose
void tags are not element tags, is read from its rendering up to texts that cannot be told apart. So
two forests with the same rendering are the same forest, whatever is in their texts and values.
Escaping a text never leaves UTF-8, so no value is rendered as the empty text. -/
theorem render_fragment_decodable (isVoid : Str → Bool) {forest : List HtmlNode}
    (h : ∀ node ∈ forest, node.WellFormed isVoid) :
    read isVoid (renderFragment forest) = some (merged forest) ∧
      (∀ other : List HtmlNode, (∀ node ∈ other, node.WellFormed isVoid) →
        renderFragment other = renderFragment forest → merged other = merged forest) ∧
      ∀ value : Str, isUtf8 value → ∀ escapeQuotes,
        isUtf8 (escapedBytes value escapeQuotes) ∧
          escapeHtmlBytes value escapeQuotes = escapedBytes value escapeQuotes := by
  refine ⟨read_renderFragment isVoid h, fun other hother heq => ?_, fun value hvalue quotes =>
    ⟨isUtf8_escapedBytes hvalue quotes, if_pos (isUtf8_escapedBytes hvalue quotes)⟩⟩
  have hread := read_renderFragment isVoid hother
  rw [heq, read_renderFragment isVoid h] at hread
  exact (Option.some.inj hread).symm

theorem render_fragment_decodable_sample :
    let isVoid := fun tag => decide (tag = ascii "br")
    let attr : Attribute := ⟨ascii "title", ascii "\" onclick=\"a&b"⟩
    let forest : List HtmlNode :=
      [.element (ascii "p") [attr] [.text (ascii "</p>"), .text [], .text (ascii "<br>"),
        .voidElement (ascii "br") []]]
    renderFragment forest = ascii
        "<p title=\"&quot; onclick=&quot;a&amp;b\">&lt;/p&gt;&lt;br&gt;<br></p>" ∧
      read isVoid (renderFragment forest) = some
        [.element (ascii "p") [attr] [.text (ascii "</p><br>"), .voidElement (ascii "br") []]] := by
  intro isVoid attr forest
  have hname : ∀ name ∈ [ascii "title", ascii "p", ascii "br"], IsName name := by
    have hall : ∀ name ∈ [ascii "title", ascii "p", ascii "br"],
        name ≠ [] ∧ name.all isNameByte = true := by decide +kernel
    exact fun name hmem => ⟨(hall name hmem).1, List.all_eq_true.mp (hall name hmem).2⟩
  simp only [List.forall_mem_cons] at hname
  obtain ⟨htitle, hp, hbr, -⟩ := hname
  have hattr : attr.WellFormed := ⟨htitle, isUtf8_of_all (by decide)⟩
  have hforest : ∀ node ∈ forest, node.WellFormed isVoid := by
    intro node hnode
    rw [List.mem_singleton.mp hnode]
    refine .element hp (by decide) (fun a ha => (List.mem_singleton.mp ha) ▸ hattr) ?_
    simp only [List.forall_mem_cons]
    exact ⟨.text (isUtf8_of_all (by decide)), .text (isUtf8_of_all rfl),
      .text (isUtf8_of_all (by decide)),
      .voidElement hbr (by decide) fun _ h => absurd h List.not_mem_nil,
      fun _ h => absurd h List.not_mem_nil⟩
  exact ⟨by decide, (render_fragment_decodable isVoid hforest).1⟩

end BasicWebserver.Platform.Html
