/-!
# Token kinds

A token kind is a sixteen-bit code. The codes below `TokenKind.firstFree` are reserved for the
classes of tokens that no table of lexemes lists: identifiers, numbers and strings.
-/

namespace FrontEnd

/-- The class of a token, told apart by its code. -/
structure TokenKind where
  code : UInt16
deriving DecidableEq, Repr, Inhabited

namespace TokenKind

def identifier : TokenKind := ⟨1⟩

def number : TokenKind := ⟨2⟩

def string : TokenKind := ⟨3⟩

/-- The least kind that a lexeme of a table may have. -/
def firstFree : TokenKind := ⟨16⟩

/-- Whether the kind is kept for tokens that no table lists. -/
def isReserved (k : TokenKind) : Bool :=
  k.code < firstFree.code

/-- The kind with the next code; the greatest code has none after it. -/
def next? (k : TokenKind) : Option TokenKind :=
  if k.code = 65535 then none else some ⟨k.code + 1⟩

/-- The kind with the greater of two codes. -/
def later (a b : TokenKind) : TokenKind :=
  if a.code < b.code then b else a

/-- What a kind is called in reports: its class if it is reserved for one, else its code. -/
def name (k : TokenKind) : String :=
  if k = identifier then "identifier"
  else if k = number then "number"
  else if k = string then "string"
  else s!"#{k.code}"

/-- The next kind has the next code, without overflow. -/
theorem code_next? {k n : TokenKind} (h : k.next? = some n) :
    n.code.toNat = k.code.toNat + 1 := by
  unfold next? at h
  split at h
  · simp at h
  · rename_i hk
    have hlt : k.code.toNat ≠ 65535 := fun e => hk (UInt16.toNat_inj.mp (by simpa using e))
    have hb := k.code.toNat_lt
    cases h
    simp only [UInt16.toNat_add, UInt16.toNat_one]
    omega

end TokenKind

end FrontEnd
