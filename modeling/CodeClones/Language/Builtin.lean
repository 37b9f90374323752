import CodeClones.Language

/-! The languages that come with the library. -/

namespace CodeClones.Language

def cFamilyOperators : List String :=
  [">>>=", "<<=", ">>=", ">>>", "...", "->", "::", "++", "--", "&&", "||", "==", "!=", "<=",
   ">=", "+=", "-=", "*=", "/=", "%=", "&=", "|=", "^=", "<<", ">>"]

def javaKeywords : List String :=
  ["abstract", "assert", "boolean", "break", "byte", "case", "catch", "char", "class", "const",
   "continue", "default", "do", "double", "else", "enum", "extends", "false", "final",
   "finally", "float", "for", "goto", "if", "implements", "import", "instanceof", "int",
   "interface", "long", "native", "new", "null", "package", "private", "protected", "public",
   "record", "return", "short", "static", "strictfp", "super", "switch", "synchronized", "this",
   "throw", "throws", "transient", "true", "try", "var", "void", "volatile", "while", "yield"]

def cKeywords : List String :=
  ["auto", "break", "case", "char", "const", "continue", "default", "do", "double", "else",
   "enum", "extern", "float", "for", "goto", "if", "inline", "int", "long", "register",
   "restrict", "return", "short", "signed", "sizeof", "static", "struct", "switch", "typedef",
   "union", "unsigned", "void", "volatile", "while"]

def cppKeywords : List String :=
  ["alignas", "alignof", "auto", "bool", "break", "case", "catch", "char", "class", "const",
   "constexpr", "const_cast", "continue", "decltype", "default", "delete", "do", "double",
   "dynamic_cast", "else", "enum", "explicit", "export", "extern", "false", "float", "for",
   "friend", "goto", "if", "inline", "int", "long", "mutable", "namespace", "new", "noexcept",
   "nullptr", "operator", "private", "protected", "public", "register", "reinterpret_cast",
   "return", "short", "signed", "sizeof", "static", "static_assert", "static_cast", "struct",
   "switch", "template", "this", "throw", "true", "try", "typedef", "typeid", "typename",
   "union", "unsigned", "using", "virtual", "void", "volatile", "while"]

def csharpKeywords : List String :=
  ["abstract", "as", "async", "await", "base", "bool", "break", "byte", "case", "catch", "char",
   "checked", "class", "const", "continue", "decimal", "default", "delegate", "do", "double",
   "else", "enum", "event", "explicit", "extern", "false", "finally", "fixed", "float", "for",
   "foreach", "get", "goto", "if", "implicit", "in", "int", "interface", "internal", "is",
   "lock", "long", "namespace", "new", "null", "object", "operator", "out", "override",
   "params", "private", "protected", "public", "readonly", "ref", "return", "sbyte", "sealed",
   "set", "short", "sizeof", "static", "string", "struct", "switch", "this", "throw", "true",
   "try", "typeof", "uint", "ulong", "unchecked", "unsafe", "ushort", "using", "var", "virtual",
   "void", "volatile", "while"]

def goKeywords : List String :=
  ["break", "case", "chan", "const", "continue", "default", "defer", "else", "fallthrough",
   "for", "func", "go", "goto", "if", "import", "interface", "map", "package", "range",
   "return", "select", "struct", "switch", "type", "var"]

def goOperators : List String :=
  ["&^=", "<<=", ">>=", "...", ":=", "<-", "&^", "++", "--", "&&", "||", "==", "!=", "<=", ">=",
   "+=", "-=", "*=", "/=", "%=", "&=", "|=", "^=", "<<", ">>"]

def rustKeywords : List String :=
  ["as", "async", "await", "break", "const", "continue", "crate", "dyn", "else", "enum",
   "extern", "false", "fn", "for", "if", "impl", "in", "let", "loop", "match", "mod", "move",
   "mut", "pub", "ref", "return", "self", "Self", "static", "struct", "super", "trait", "true",
   "type", "unsafe", "use", "where", "while"]

def rustOperators : List String :=
  ["<<=", ">>=", "..=", "...", "->", "=>", "::", "..", "&&", "||", "==", "!=", "<=", ">=", "+=",
   "-=", "*=", "/=", "%=", "&=", "|=", "^=", "<<", ">>"]

def javascriptKeywords : List String :=
  ["abstract", "async", "await", "break", "case", "catch", "class", "const", "continue",
   "debugger", "default", "delete", "do", "else", "enum", "export", "extends", "false",
   "finally", "for", "function", "if", "implements", "import", "in", "instanceof", "interface",
   "let", "new", "null", "of", "private", "protected", "public", "readonly", "return", "static",
   "super", "switch", "this", "throw", "true", "try", "type", "typeof", "undefined", "var",
   "void", "while", "with", "yield"]

def javascriptOperators : List String :=
  [">>>=", "===", "!==", "**=", "??=", "&&=", "||=", "<<=", ">>=", ">>>", "...", "=>", "**",
   "?.", "??", "++", "--", "&&", "||", "==", "!=", "<=", ">=", "+=", "-=", "*=", "/=", "%=",
   "&=", "|=", "^=", "<<", ">>"]

def pythonKeywords : List String :=
  ["False", "None", "True", "and", "as", "assert", "async", "await", "break", "class",
   "continue", "def", "del", "elif", "else", "except", "finally", "for", "from", "global", "if",
   "import", "in", "is", "lambda", "nonlocal", "not", "or", "pass", "raise", "return", "try",
   "while", "with", "yield"]

def pythonOperators : List String :=
  ["**=", "//=", ">>=", "<<=", "->", ":=", "**", "//", "==", "!=", "<=", ">=", "+=", "-=", "*=",
   "/=", "%=", "&=", "|=", "^=", "@=", "<<", ">>"]

def java : Language where
  name := "java"
  extensions := ["java"]
  keywords := javaKeywords
  operators := cFamilyOperators
  tripleQuotes := true
  otherLiterals := [.char]
  dollarInWords := true
  metadata := .anywhere
  directiveWords := ["import", "package"]
  strict := true

def c : Language where
  name := "c"
  extensions := ["c", "h"]
  keywords := cKeywords
  operators := cFamilyOperators
  stringMarks := ["L", "u", "U", "u8"]
  otherLiterals := [.char]
  preprocessor := true

def cpp : Language where
  name := "cpp"
  aliases := ["c++"]
  extensions := ["cpp", "cc", "cxx", "c++", "hpp", "hh", "hxx", "h++", "ino"]
  keywords := cppKeywords
  operators := cFamilyOperators
  stringMarks := ["L", "u", "U", "u8"]
  otherLiterals := [.char]
  preprocessor := true

def csharp : Language where
  name := "csharp"
  aliases := ["cs", "c#"]
  extensions := ["cs"]
  keywords := csharpKeywords
  operators := cFamilyOperators
  otherLiterals := [.char]
  verbatimStrings := true
  preprocessor := true
  directiveWords := ["using"]
  strict := true

def go : Language where
  name := "go"
  aliases := ["golang"]
  extensions := ["go"]
  keywords := goKeywords
  operators := goOperators
  otherLiterals := [{ quote := '\x60', escapes := false, multiline := true }, .char]
  directiveWords := ["import", "package"]
  directiveLists := true
  strict := true

def rust : Language where
  name := "rust"
  aliases := ["rs"]
  extensions := ["rs"]
  keywords := rustKeywords
  operators := rustOperators
  blockComments := .nested
  multilineStrings := true
  stringMarks := ["b", "c"]
  otherLiterals := [.char]
  rawStringMarks := ["r", "br", "cr"]
  charMarks := ["b"]
  lifetimes := true
  metadata := .bracketed
  directiveWords := ["use"]

def javascript : Language where
  name := "javascript"
  aliases := ["js", "ecmascript", "typescript", "ts"]
  extensions := ["js", "jsx", "mjs", "cjs", "ts", "tsx", "mts", "cts"]
  keywords := javascriptKeywords
  operators := javascriptOperators
  quotes := ['"', '\'']
  otherLiterals := [{ quote := '\x60', multiline := true }]
  dollarInWords := true
  metadata := .anywhere
  directiveWords := ["import"]

def python : Language where
  name := "python"
  aliases := ["py"]
  extensions := ["py", "pyi"]
  keywords := pythonKeywords
  operators := pythonOperators
  lineComment := some ['#']
  blockComments := .absent
  quotes := ['"', '\'']
  tripleQuotes := true
  stringMarks := ["r", "u", "f", "b", "R", "U", "F", "B", "rb", "br", "Rb", "bR", "RB", "BR", "fr", "rf",
    "Fr", "fR", "FR", "RF"]
  metadata := .lineStart
  directiveWords := ["import", "from"]

def text : Language where
  name := "text"
  aliases := ["any"]
  extensions := ["txt"]
  lineComment := none
  blockComments := .absent

def builtin : List Language := [java, c, cpp, csharp, go, rust, javascript, python, text]

end CodeClones.Language
