import Mathlib.Data.List.Infix
import SupportFile.SepList.Basic

/-!
This module contains the sections of the installer that create the database and its user, and the
client `mysql` whose output they search.
-/

namespace Provision

structure Account where
  user : List Char
  host : List Char
  deriving DecidableEq, Repr

-- `granted` are the accounts with all privileges.
structure MySql where
  schemas : List (List Char)
  accounts : List Account
  granted : List Account := []
  deriving DecidableEq, Repr

-- In batch mode the client prints one row a line.
def escapeChar (c : Char) : List Char :=
  match c with
  | '\x00' => ['\\', '0']
  | '\t' => ['\\', 't']
  | '\n' => ['\\', 'n']
  | '\\' => ['\\', '\\']
  | c => [c]

def escape (name : List Char) : List Char :=
  name.flatMap escapeChar

def warning : List Char :=
  "mysql: [Warning] Using a password on the command line interface can be insecure.".toList

/-- The output of a query with one column, standard error included. -/
def print (column : List Char) (names : List (List Char)) : List Char :=
  SepList.terminated '\n' (warning :: column :: names.map escape)

-- The command substitution removes the line feeds at the end.
def capture (output : List Char) : List Char :=
  output.rdropWhile (· == '\n')

def showDatabases (s : MySql) : List Char :=
  capture (print "Database".toList s.schemas)

def selectUser (s : MySql) : List Char :=
  capture (print "user".toList (s.accounts.map (fun account => account.user)))

def chargingSystem : List Char :=
  "charging_system".toList

def keep : List Char :=
  "keep".toList

def createSchema (s : MySql) : MySql :=
  { s with schemas := s.schemas ++ [chargingSystem] }

def createUser (s : MySql) : MySql :=
  { s with accounts := s.accounts ++ [{ user := keep, host := "%".toList }] }

def grantAll (s : MySql) : MySql :=
  { s with granted := s.granted ++ [{ user := keep, host := "%".toList }] }

-- The test `[[ $output != *"name"* ]]`.
def createUnless (name : List Char) (output : MySql → List Char) (create : MySql → MySql)
    (s : MySql) : MySql :=
  if ¬name <:+: output s then
    create s
  else
    s

def databaseSection (s : MySql) : MySql :=
  createUnless chargingSystem showDatabases createSchema s

def userSection (s : MySql) : MySql :=
  -- `FLUSH PRIVILEGES` has nothing to do after the other two statements.
  createUnless keep selectUser (fun s => grantAll (createUser s)) s

def provision (s : MySql) : MySql :=
  userSection (databaseSection s)

end Provision
