import Highlight.Language

/-!
# The Zig language

Keywords, primitive types and constants of Zig, with its comments, strings, numbers,
builtin functions and call sites.
-/

namespace Highlight.Zig

def name : Text := ['Z', 'i', 'g']

def declarationWords : List String :=
  ["asm", "comptime", "enum", "export", "extern", "fn", "pub", "struct", "test", "union",
    "usingnamespace", "volatile", "var", "const"]

def specialWords : List String :=
  ["defer", "callconv", "linksection", "catch", "resume", "try", "async", "await", "suspend",
    "inline", "noalias", "nosuspend", "noinline", "opaque", "packed", "errdefer", "error",
    "threadlocal", "unreachable", "align", "allowzero", "anyframe"]

def controlWords : List String :=
  ["continue", "break", "for", "if", "else", "or", "orelse", "switch", "and", "while", "return"]

def typeNames : List String :=
  ["i8", "u8", "i16", "u16", "i32", "u32", "i64", "u64", "i128", "u128", "isize", "usize",
    "c_short", "c_ushort", "c_int", "c_uint", "c_long", "c_ulong", "c_longlong",
    "c_ulonglong", "c_longdouble", "c_void", "f16", "f32", "f64", "f128", "bool", "void",
    "noreturn", "type", "anyerror", "comptime_int", "comptime_float", "anytype"]

def constantNames : List String :=
  ["null", "undefined", "true", "false", "stdin", "stdout", "stderr"]

def keywords : Table Text Category :=
  let under (c : Category) (words : List String) := words.map fun w => (w.toList, c)
  Table.empty.insertAll
    (under .keyword declarationWords ++ under .preprocessorLike specialWords ++
      under .controlFlow controlWords ++ under .type typeNames ++
      under .constant constantNames)

def stringLiteral : Delimited where
  opening := ['"']
  closing := ['"']
  escape := some '\\'
  limit := none
  category := .string
  has_mark := by decide

def charLiteral : Delimited where
  opening := ['\'']
  closing := ['\'']
  escape := some '\\'
  limit := some 1
  category := .char
  has_mark := by decide

def blockComment : Region where
  name := "block_comment".toList
  opening := ['/', '*']
  closing := ['*', '/']
  escape := none
  category := .comment
  id := ⟨1, by decide⟩
  opening_ne_nil := by decide
  closing_ne_nil := by decide

def rules : List Rule :=
  [.sigilWord '@' .preprocessorLike,
    .markedWord '(' .call,
    .numbers Pattern.standardNumber,
    .delimited stringLiteral,
    .delimited charLiteral,
    .toLineEnd ['/', '/'] .comment,
    .toLineEnd ['\\', '\\'] .string,
    .region blockComment]

def language : Language where
  name := name
  extensions := [['z', 'i', 'g'], ['z', 'o', 'n']]
  lexicon := { keywords := keywords, rules := rules }

end Highlight.Zig
