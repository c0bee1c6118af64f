import Mathlib.Data.List.Infix
import SupportFile.Script.Basic

/-!
This module contains the sections of the installer that come before the servers are launched, as scripts:
they install what is missing, prepare the database and download the archive.
-/

namespace Install

open Script

abbrev Output := List Char

abbrev Sh := Script String Output

-- `[[ $output == *"pattern"* ]]`
def contains (output : Output) (pattern : String) : Bool :=
  pattern.toList <:+: output

/--
`probe` is the command whose output decides whether the component is there, and `install` the one that
each attempt runs once.
-/
structure Component where
  probe : String
  enough : Output → Bool
  install : String

-- The test `[ $count -gt 3 ]` comes after the counter has been incremented.
def attempts : Nat :=
  3

def Component.require (c : Component) (attempt : Sh Output) : Sh Unit := do
  let output ← capture c.probe
  retry c.enough attempt attempts output

def jdk : Component where
  probe := "java -version"
  enough output := !contains output "found"
  install := "apt-get --assume-yes install openjdk-8-jdk"

def installJdk : Sh Output := do
  run "apt-get update"
  run "apt-get --assume-yes install openjdk-8-jdk"
  capture "java -version"

def mysql : Component where
  probe := "mysql --version"
  enough output := contains output "8.0.18"
  install := "apt --assume-yes install mysql-server"

def installMysql : Sh Output := do
  run "wget https://github.com/sxydh/other-data/raw/master/mysql/mysql-apt-config_0.8.14-1_all.deb"
  run "dpkg -i mysql-apt-config_0.8.14-1_all.deb"
  run "apt update"
  run "apt --assume-yes install mysql-server"
  let output ← capture "mysql --version"
  if !contains output "8.0.18" then
    return output
  else
    run "rm -f mysql-apt-config_0.8.14-1_all.deb"
    return output

def database : Sh Unit := do
  let output ← capture "mysql -uroot -p123 -e \"SHOW DATABASES\""
  if !contains output "charging_system" then
    run "mysql -uroot -p123 -e \"CREATE SCHEMA `charging_system`\""
    let _ ← capture "mysql -uroot -p123 -e \"SHOW DATABASES\""
    return ()
  else
    return ()

def user : Sh Unit := do
  let output ← capture
    "mysql --user=\"root\" --password=\"123\" --execute=\"SELECT user FROM mysql.user\""
  if !contains output "keep" then
    run "mysql --user=\"root\" --password=\"123\" --execute=\"CREATE USER keep IDENTIFIED BY '123'\""
    run "mysql --user=\"root\" --password=\"123\" --execute=\"GRANT ALL ON *.* TO keep\""
    run "mysql --user=\"root\" --password=\"123\" --execute=\"FLUSH PRIVILEGES\""
    let _ ← capture
      "mysql --user=\"root\" --password=\"123\" --execute=\"SELECT user FROM mysql.user\""
    return ()
  else
    return ()

def redis : Component where
  probe := "redis-cli --version"
  enough output := !contains output "found"
  install := "apt-get --assume-yes install redis-server"

def configureRedis : Sh Output := do
  let status ← capture "service redis-server status"
  if contains status "running" then
    run "service redis-server stop"
  run "rm -f redis.conf"
  run "wget https://raw.githubusercontent.com/sxydh/other-data/master/redis/redis.conf"
  let output ← capture "ls -l"
  if !contains output "redis.conf" then
    .exit
  else
    run "rm -f /etc/redis/redis.conf"
    run "mv redis.conf /etc/redis/"
    run "service redis-server restart"
    let output ← capture "redis-cli --version"
    let _ ← capture "echo config set requirepass \"123\" | redis-cli"
    return output

def installRedis : Sh Output := do
  run "apt-get update"
  run "apt-get --assume-yes install redis-server"
  let output ← capture "redis-cli --version"
  if contains output "found" then
    return output
  else
    configureRedis

def unrar : Component where
  probe := "unrar -version"
  enough output := !contains output "not found"
  install := "apt-get --assume-yes install unrar"

def installUnrar : Sh Output := do
  run "apt-get --assume-yes install unrar"
  capture "unrar -version"

def archive : Component where
  probe := "ls -l"
  enough output := contains output "sample_to_run.part1.rar" && contains output "sample_to_run.part2.rar"
  install :=
    "wget https://github.com/sxydh/other-data/raw/master/utils/sample-shell/sample_to_run.part1.rar"

def downloadArchive : Sh Output := do
  run "rm -f sample_to_run.part*"
  run "wget https://github.com/sxydh/other-data/raw/master/utils/sample-shell/sample_to_run.part1.rar"
  run "wget https://github.com/sxydh/other-data/raw/master/utils/sample-shell/sample_to_run.part2.rar"
  capture "ls -l"

def extract : Sh Unit := do
  run "rm -rf sample_to_run"
  run "unrar x sample_to_run.part1.rar"

def sections : List (Sh Unit) :=
  [jdk.require installJdk,
    mysql.require installMysql,
    database,
    user,
    redis.require installRedis,
    unrar.require installUnrar,
    run "rm -f sample_to_run.part*",
    archive.require downloadArchive,
    extract]

-- Everything that "Start all" does from the JDK to the archive.
def installation : Sh Unit :=
  inOrder sections

end Install
