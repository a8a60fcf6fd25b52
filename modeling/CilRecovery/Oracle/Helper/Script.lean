import CilRecovery.Oracle.Helper
import CilRecovery.Text

/-!
# Helpers given as shell commands

A helper may be a shell script that writes prepared output and then reads its input. Only what
such a script needs is understood: commands in sequence, quoting, and the few programs below.
Everything else does nothing.
-/

set_option autoImplicit false

namespace CilRecovery.Oracle.HelperScript

/-! ## Words and commands -/

inductive Lexeme
  | word (text : List Char)
  | separator

inductive Quoting
  | plain
  | single
  | double

/-- Ends a word that has been started. The characters of a word are collected in reverse. -/
def endWord (word : Option (List Char)) (rest : List Lexeme) : List Lexeme :=
  match word with
  | some chars => .word chars.reverse :: rest
  | none => rest

def extendWord (word : Option (List Char)) (char : Char) : Option (List Char) :=
  some (char :: word.getD [])

def lexemes (quoting : Quoting) (word : Option (List Char)) : List Char → List Lexeme
  | [] => endWord word []
  | char :: rest =>
      match quoting with
      | .single =>
          if char = '\'' then lexemes .plain (some (word.getD [])) rest
          else lexemes .single (extendWord word char) rest
      | .double =>
          if char = '"' then lexemes .plain (some (word.getD [])) rest
          else if char = '\\' then
            match rest with
            | next :: rest =>
                if next = '"' ∨ next = '\\' ∨ next = '$' then
                  lexemes .double (extendWord word next) rest
                else lexemes .double (extendWord (extendWord word char) next) rest
            | [] => endWord (extendWord word char) []
          else lexemes .double (extendWord word char) rest
      | .plain =>
          if char = '\'' then lexemes .single (some (word.getD [])) rest
          else if char = '"' then lexemes .double (some (word.getD [])) rest
          else if char = '\\' then
            match rest with
            | next :: rest => lexemes .plain (extendWord word next) rest
            | [] => endWord (extendWord word char) []
          else if char = ';' ∨ char = '\n' ∨ char = '&' then
            endWord word (.separator :: lexemes .plain none rest)
          else if char = ' ' ∨ char = '\t' then endWord word (lexemes .plain none rest)
          else lexemes .plain (extendWord word char) rest

def commands (command : List (List Char)) : List Lexeme → List (List (List Char))
  | [] => [command.reverse]
  | .separator :: rest => command.reverse :: commands [] rest
  | .word text :: rest => commands (text :: command) rest

/-! ## Programs -/

def octal? (char : Char) : Option Nat :=
  if '0' ≤ char ∧ char ≤ '7' then some (char.toNat - 0x30) else none

def shortEscape (char : Char) : Char :=
  match char with
  | 'a' => '\x07'
  | 'b' => '\x08'
  | 'f' => '\x0c'
  | 'n' => '\n'
  | 'r' => '\r'
  | 't' => '\t'
  | 'v' => '\x0b'
  | _ => char

/-- The bytes that a format stands for. Escapes have up to three octal digits, of which `left`
more may follow those whose value is `code`. -/
def formatted : (code : Option (Nat × Nat)) → List Char → Bytes
  | some (code, _), [] => [UInt8.ofNat code]
  | none, [] => []
  | some (code, 0), char :: rest => UInt8.ofNat code :: formattedChar char rest
  | some (code, left + 1), char :: rest =>
      match octal? char with
      | some digit => formatted (some (8 * code + digit, left)) rest
      | none => UInt8.ofNat code :: formattedChar char rest
  | none, char :: rest => formattedChar char rest
where
  /-- The bytes of a format from a character on that is no further digit. -/
  formattedChar (char : Char) : List Char → Bytes
    | [] => String.utf8EncodeChar char
    | next :: rest =>
        if char = '\\' then
          match octal? next with
          | some digit => formatted (some (digit, 2)) rest
          | none => String.utf8EncodeChar (shortEscape next) ++ formatted none rest
        else if char = '%' ∧ next = '%' then String.utf8EncodeChar char ++ formatted none rest
        else String.utf8EncodeChar char ++ formattedChar next rest

def decimal (digits : List Char) : Nat :=
  (digits.takeWhile Char.isDigit).foldl (fun value digit => 10 * value + (digit.toNat - 48)) 0

def milliseconds (text : List Char) : Nat :=
  let fraction := ((text.dropWhile Char.isDigit).drop 1 ++ ['0', '0', '0']).take 3
  1000 * decimal text + decimal fraction

def program? (name : String) (arguments : List (List Char)) : Option (List HelperAction) :=
  if name = "printf" then some [.write (formatted none (arguments.headD []))]
  else if name = "cat" then some [.drain]
  else if name = "sleep" then some [.pause (milliseconds (arguments.headD []))]
  else if name = "true" ∨ name = "false" then some []
  else if name = "head" then
    match arguments with
    | ['-', 'c'] :: count :: _ => some [.read (decimal count)]
    | ('-' :: 'c' :: count) :: _ => some [.read (decimal count)]
    | _ => some [.drain]
  else none

def commandActions : List (List Char) → List HelperAction
  | [] => []
  | name :: arguments =>
      if String.ofList name = "exit" then [.exit]
      else if String.ofList name = "exec" then commandActions arguments ++ [.exit]
      else (program? (String.ofList name) arguments).getD []

def actions (script : String) : List HelperAction :=
  (commands [] (lexemes .plain none script.toList)).flatMap commandActions

def baseName (path : String) : String :=
  match path.toList with
  | '/' :: 'b' :: 'i' :: 'n' :: '/' :: name => String.ofList name
  | '/' :: 'u' :: 's' :: 'r' :: '/' :: 'b' :: 'i' :: 'n' :: '/' :: name => String.ofList name
  | _ => path

def start (path : String) (arguments : List String) (messageLimit : Nat) :
    Except Error HelperProcess :=
  let name := baseName path
  let actions? :=
    if name = "sh" then
      match arguments with
      | "-c" :: script :: _ => some (actions script)
      | _ => some [.drain]
    else program? name (arguments.map String.toList)
  match actions? with
  | some actions => .ok (.start actions messageLimit)
  | none => .error (.file .noProgram)

end CilRecovery.Oracle.HelperScript
