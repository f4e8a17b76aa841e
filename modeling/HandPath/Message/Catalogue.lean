import HandPath.Message.Template
import HandPath.Notation.Fault
import HandPath.Document.Basic
import HandPath.Text.Blank

/-!
# HandPath.Message.Catalogue — the table of message templates

`template` gives the template of each kind of mistake and `packaged` the document that holds them
all. `ofParsed` reads such a table from a parsed file, whose mappings may have keys of any type: it
must have a template for every kind and for nothing else, and no template may be blank. A wrong
shape is told first, then the first bad entry, and missing kinds only if every entry is good.
-/

namespace HandPath.Catalogue

/-- The message for a kind of mistake. -/
def template : Kind → Template
  | .emptyNotation =>
    [.text "手部路径为空：至少需要一段以 '.' 结尾的记谱（多段之间用 '|' 或 '!' 分隔）"]
  | .badCharacter => [.text "手部路径含无法识别的字符：", .quotedArgument "char"]
  | .tooFewCoords => [.text "每一拍至少需要 2 个路径点（出手点与接球点）"]
  | .badEnding => [.text "手部路径未以 '.' 正确结束：最后一拍缺少结束符"]
  | .throwNotStart => [.text "出手标记 'T' 只能出现在一拍的开头"]
  | .tooManyThrows => [.text "同一拍内出手标记 'T' 重复"]
  | .catchAtStart => [.text "接球标记 'C' 之前必须至少有一个路径点"]
  | .tooManyCatches => [.text "同一拍内接球标记 'C' 重复"]
  | .noParen => [.text "坐标括号缺少闭合的 ')'"]
  | .badCoordinate =>
    [.text "坐标格式非法：(", .argument "text", .text ")；坐标分量必须是有限数值，形如 (x,z,y)"]
  | .noThrowCoord => [.text "出手点（每拍第 1 个路径点）必须给出明确坐标，不能是 '-'"]
  | .noCatchCoord =>
    [.text "接球点必须给出明确坐标，不能是 '-'，且 'C' 之后必须紧跟一个路径点"]

/-- The table as a document. -/
def packaged : Document :=
  .object [("version", .string "0.1"),
    ("errors", .object (Kind.all.map fun k => (k.name, .string (template k).source)))]

/-! ### Parsed files -/

/-- What an entry of a mapping is found by: a text, or another value, given by how it is shown. -/
inductive Key where
  | text (s : String)
  | other (shown : String)
deriving DecidableEq, Repr

/-- The key as an error shows it. -/
def Key.shown : Key → String
  | text s => Text.quoted s
  | other shown => shown

/-- The kind that has the key. -/
def Key.kind? : Key → Option Kind
  | text s => Kind.ofName? s
  | other _ => none

/-- What a file holds once it is parsed: a text, a mapping with its entries in order, or a value of
another type, which no table is made of. The keys of a mapping are distinct, but nothing here needs
them to be. -/
inductive Parsed where
  | text (s : String)
  | mapping (entries : List (Key × Parsed))
  | other

namespace Parsed

/-- The value of a key; only mappings have keys. -/
def get? (key : Key) : Parsed → Option Parsed
  | mapping entries => entries.lookup key
  | _ => none

mutual

def ofDocument : Document → Parsed
  | .string s => text s
  | .object members => mapping (ofMembers members)
  | _ => other

def ofMembers : List (String × Document) → List (Key × Parsed)
  | [] => []
  | (name, d) :: members => (.text name, ofDocument d) :: ofMembers members

end

end Parsed

/-! ### Reading a table -/

/-- Why a parsed file is no table of messages. -/
inductive TableError where
  | noTable
  | unknownKind (key : Key)
  | blankTemplate (k : Kind)
  | missingKinds (kinds : List Kind)
deriving DecidableEq, Repr

/-- The text of a table error; `path` says where the table comes from. -/
def TableError.message (path : String) : TableError → String
  | noTable => "错误文案文件缺少 errors 表：" ++ path
  | unknownKind key => "错误文案含未知 kind：" ++ key.shown
  | blankTemplate k => "错误文案模板必须是非空字符串：" ++ Text.quoted k.name
  | missingKinds kinds => "错误文案缺少 kind：" ++ Text.quotedList (kinds.map Kind.name)

/-- The template that an entry holds, if it holds one. -/
def templateText? : Parsed → Option String
  | .text s => if s.toList.all Text.isBlank then none else some s
  | _ => none

/-- What an entry of the table says; its key is looked at before its template. -/
def readEntry (entry : Key × Parsed) : Except TableError (Kind × String) :=
  match entry.1.kind? with
  | none => .error (.unknownKind entry.1)
  | some k =>
    match templateText? entry.2 with
    | none => .error (.blankTemplate k)
    | some s => .ok (k, s)

/-- The kinds without an entry, in the order of `Kind.all`. -/
def missingKinds (table : List (Kind × String)) : List Kind :=
  Kind.all.filter fun k => !(table.map Prod.fst).contains k

/-- The templates of a table of messages, in the order of the file. -/
def ofParsed (d : Parsed) : Except TableError (List (Kind × String)) :=
  match d.get? (.text "errors") with
  | some (.mapping entries) => do
    let table ← entries.mapM readEntry
    if (missingKinds table).isEmpty then return table
    else throw (.missingKinds (missingKinds table))
  | _ => .error .noTable

/-- The templates of a table that is a document. -/
def ofDocument (d : Document) : Except TableError (List (Kind × String)) :=
  ofParsed (.ofDocument d)

end HandPath.Catalogue
