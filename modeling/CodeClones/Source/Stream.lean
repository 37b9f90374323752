import CodeClones.Source.Cut

/-! The tokens of a source text with their places. -/

namespace CodeClones

structure LexError where
  position : Position
  reason : String
deriving DecidableEq, Repr

def LexError.message (e : LexError) : String :=
  toString e.position.line ++ ":" ++ toString e.position.column ++ ": " ++ e.reason

structure TokenStream where
  tokens : List Token
  error : Option LexError
deriving DecidableEq, Repr

namespace TokenStream

def complete (s : TokenStream) : Except LexError (List Token) :=
  match s.error with
  | none => .ok s.tokens
  | some e => .error e

def normalize (n : Normalization) (s : TokenStream) : TokenStream :=
  { s with tokens := s.tokens.filterMap n.apply }

end TokenStream

namespace Source

/-- The tokens among segments that begin at `p`, behind the tokens `found`, which are listed from last to
first. -/
def tokensOnto (file : Nat) (found : List Token) (p : Position) : List Segment → List Token
  | [] => found.reverse
  | s :: following =>
      tokensOnto file ((s.token? file p).toList ++ found) (p.afterText s.text) following

def tokens (file : Nat) (segments : List Segment) : List Token := tokensOnto file [] .start segments

theorem tokensOnto_eq (file : Nat) (found : List Token) (p : Position) (segments : List Segment) :
    tokensOnto file found p segments = found.reverse ++ tokensOnto file [] p segments := by
  induction segments generalizing found p with
  | nil => simp [tokensOnto]
  | cons s following ih =>
      rw [tokensOnto, tokensOnto, ih, ih ((s.token? file p).toList ++ [])]
      simp

theorem tokensOnto_append (file : Nat) (p : Position) (before behind : List Segment) :
    tokensOnto file [] p (before ++ behind) =
      tokensOnto file [] p before ++
        tokensOnto file [] (before.foldl (fun p s => p.afterText s.text) p) behind := by
  induction before generalizing p with
  | nil => simp [tokensOnto]
  | cons s following ih =>
      rw [List.cons_append, tokensOnto, tokensOnto, tokensOnto_eq, ih, List.foldl_cons]
      rw [tokensOnto_eq file ((s.token? file p).toList ++ []) _ following, List.append_assoc]

def endOf (segments : List Segment) : Position := segments.foldl (fun p s => p.afterText s.text) .start

def Cut.stream (cut : Cut) (file : Nat) : TokenStream where
  tokens := tokens file cut.segments
  error := cut.failure.map fun f =>
    ⟨(endOf cut.segments).afterText (cut.unread.take f.offset), f.fault.message⟩

def dropByteOrderMark : List Char → List Char
  | '\uFEFF' :: text => text
  | text => text

end Source

def Language.tokenize (l : Language) (source : String) (file : Nat) (n : Normalization) : TokenStream :=
  ((Source.cut l (Source.dropByteOrderMark source.toList)).stream file).normalize n

end CodeClones
